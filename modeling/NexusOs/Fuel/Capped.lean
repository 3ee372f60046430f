import NexusOs.Fuel.Accounts

/-!
# The caps on L5 and L6 agents

A start and a restart look at the caps once and then move the agent on in steps that may fail. The
caps hold at every point all the same: while the agent has room among the others of its level, no
state of it can break them (`Room.lives`), and an active agent has room (`room_of_active`). Read
`caps_are_kept` first.
-/

namespace NexusOs.Fuel

open Utf8 List Supervisor

/-- The agent is active and of this level. -/
def AgentHandle.activeAt (level : Nat) (h : AgentHandle) : Bool :=
  h.autonomyLevel = level && h.state.isActive

/-- The number of active agents of a level. -/
def Supervisor.active (s : Supervisor) (level : Nat) : Nat :=
  s.agents.count fun _ h => h.activeAt level

/-- The number of active agents of a level, without one agent. -/
def Supervisor.others (s : Supervisor) (id : AgentId) (level : Nat) : Nat :=
  (s.agents.erase id).count fun _ h => h.activeAt level

/-- The levels that are capped, with their caps. -/
def SupervisorConfig.caps (config : SupervisorConfig) : List (Nat × Nat) :=
  [(5, config.maxL5Agents), (6, config.maxL6Agents)]

/-- No more agents of the capped levels are active than configured. -/
structure Supervisor.Capped (config : SupervisorConfig) (s : Supervisor) : Prop where
  configured : s.config = config
  caps : ∀ cap ∈ config.caps, s.active cap.1 ≤ cap.2

variable {s : Supervisor} {config : SupervisorConfig} {id : AgentId} {level draw : Nat}
  {f : AgentHandle → AgentHandle} {handle : AgentHandle}

theorem caps_ne_zero {cap : Nat × Nat} (h : cap ∈ config.caps) : cap.1 ≠ 0 := by
  rcases mem_pair.mp h with rfl | rfl <;> simp

theorem active_eq (s : Supervisor) (id : AgentId) (level : Nat) :
    s.active level =
      s.others id level + ((s.agents.get? id).any (AgentHandle.activeAt level)).toNat :=
  Table.count_erase.symm

theorem length_othersActive : (s.othersActive id level).length = s.others id level := by
  simp only [othersActive, others, length_map, Table.count, Table.erase,
    Table.retain, countP_eq_length_filter, filter_filter, AgentHandle.activeAt]

/-- Changing one agent keeps a cap, if the agent is not newly active or has room. -/
theorem active_modify_le {max : Nat} (hs : s.active level ≤ max)
    (hf : ∀ h, s.agents.get? id = some h → (f h).activeAt level = true →
      h.activeAt level = true ∨ s.others id level < max) :
    ({ s with agents := s.agents.modify id f } : Supervisor).active level ≤ max := by
  rw [active_eq s id] at hs
  rw [active_eq _ id, others, Table.erase_modify, Table.get?_modify, if_pos rfl]
  cases hget : s.agents.get? id with
  | none => exact Nat.le_trans (Nat.le_add_right ..) hs
  | some h =>
    show s.others id level + ((f h).activeAt level).toNat ≤ max
    cases hactive : (f h).activeAt level with
    | false => exact Nat.le_trans (Nat.le_add_right ..) hs
    | true =>
      rcases hf h hget hactive with hwas | hroom
      · simpa [hget, hwas] using hs
      · exact hroom

/-- A payment makes no agent active, and gives no agent a level but the lowest. -/
theorem activeAt_of_mild {h : AgentHandle} (hf : (f h).state = h.state ∧
      ((f h).autonomyLevel = h.autonomyLevel ∨ (f h).autonomyLevel = 0))
    (hlevel : level ≠ 0) (hactive : (f h).activeAt level = true) : h.activeAt level = true := by
  simp only [AgentHandle.activeAt, hf.1, Bool.and_eq_true, decide_eq_true_eq] at hactive ⊢
  refine ⟨?_, hactive.2⟩
  rcases hf.2 with hsame | hzero <;> omega

theorem capped_pays (id : AgentId) : Pays id fun s s' => s.Capped config → s'.Capped config where
  refl _ h := h
  trans h h' hs := h' (h hs)
  handle _ _ hf hs := ⟨hs.configured, fun cap hcap => active_modify_le (hs.caps cap hcap)
    fun h _ hactive => .inl (activeAt_of_mild (hf h) (caps_ne_zero hcap) hactive)⟩
  ledger _ _ h := ⟨h.configured, h.caps⟩
  halts _ _ h := ⟨h.configured, h.caps⟩

/-! ## Room -/

/-- The caps have room for the agent beside the others of its level. -/
def Room (id : AgentId) (s : Supervisor) : Prop :=
  ∀ h, s.agents.get? id = some h → ∀ cap ∈ s.config.caps, h.autonomyLevel = cap.1 →
    s.others id cap.1 < cap.2

/-- While the agent has room, neither its payments nor its states break the caps. -/
theorem room_modify (hf : ∀ h, (f h).autonomyLevel = h.autonomyLevel ∨ (f h).autonomyLevel = 0)
    (h : s.Capped config ∧ Room id s) : let s' := { s with agents := s.agents.modify id f }
    s'.Capped config ∧ Room id s' := by
  have hlevel : ∀ cap ∈ config.caps, ∀ h, (f h).autonomyLevel = cap.1 → h.autonomyLevel = cap.1 :=
    fun cap hcap h heq => by
      have := caps_ne_zero hcap
      rcases hf h with hf | hf <;> omega
  obtain ⟨⟨rfl, hcaps⟩, hroom⟩ := h
  refine ⟨⟨rfl, fun cap hcap => active_modify_le (hcaps cap hcap) fun a ha hactive => .inr ?_⟩, ?_⟩
  · refine hroom a ha cap hcap (hlevel cap hcap a ?_)
    exact of_decide_eq_true (Bool.and_eq_true_iff.mp hactive).1
  · intro a ha cap hcap heq
    rw [Table.get?_modify, if_pos rfl] at ha
    obtain ⟨a, hget, rfl⟩ := Option.map_eq_some_iff.mp ha
    rw [others, Table.erase_modify]
    exact hroom a hget cap hcap (hlevel cap hcap a heq)

theorem Room.lives (id : AgentId) :
    Lives id fun s s' => s.Capped config ∧ Room id s → s'.Capped config ∧ Room id s' where
  refl _ h := h
  trans h h' hs := h' (h hs)
  handle _ _ hf := room_modify fun h => (hf h).2
  state _ _ := room_modify fun _ => .inl rfl
  ledger _ _ h := ⟨⟨h.1.configured, h.1.caps⟩, h.2⟩
  halts _ _ h := ⟨⟨h.1.configured, h.1.caps⟩, h.2⟩

/-- An active agent is counted by the caps, so it has room. -/
theorem room_of_active (hs : s.Capped config) (hget : s.agents.get? id = some handle)
    (hactive : handle.state.isActive = true) : Room id s := by
  intro a ha cap hcap heq
  obtain rfl : handle = a := Option.some.inj (hget.symm.trans ha)
  have hat : handle.activeAt cap.1 = true := by simp [AgentHandle.activeAt, heq, hactive]
  have hcount := hs.caps cap (hs.configured ▸ hcap)
  rw [active_eq s id, hget, Option.any_some, hat] at hcount
  exact hcount

/-- The caps are checked for the level of the agent. -/
theorem room_of_checkCaps {n : AutonomyLevel} (hget : s.agents.get? id = some handle)
    (hlevel : ∀ m : AutonomyLevel, handle.autonomyLevel = m.numeric → n = m)
    (h : s.checkCaps id n = none) : Room id s := by
  have hcap : ∀ {capped max}, s.checkCap id n capped max = none →
      handle.autonomyLevel = capped.numeric → s.others id capped.numeric < max := by
    intro capped max hnone heq
    simp only [checkCap, length_othersActive] at hnone
    split at hnone
    · cases hnone
    · next hfull => exact Nat.not_le.mp fun hle => hfull ⟨hlevel capped heq, hle⟩
  obtain ⟨hl5, hl6⟩ := Option.or_eq_none_iff.mp h
  intro a ha cap hmem heq
  obtain rfl : handle = a := Option.some.inj (hget.symm.trans ha)
  rcases mem_pair.mp hmem with rfl | rfl
  · exact hcap hl5 heq
  · exact hcap hl6 heq

theorem numeric_fromNumeric {n : Nat} {m : AutonomyLevel} (h : n = m.numeric) :
    AutonomyLevel.fromNumeric n = some m := by
  subst h
  cases m <;> rfl

/-! ## The operations -/

/-- A lifecycle call keeps the caps, if it does nothing for an agent without room. -/
theorem capped_lifecycle {answer : Returned Unit} (hs : s.Capped config)
    (hdoes : Lifecycle id s answer) (hidle : ¬Room id s → answer.2 = s) :
    answer.2.Capped config := by
  by_cases hroom : Room id s
  · exact ((Room.lives id).lifecycle hdoes ⟨hs, hroom⟩).1
  · rwa [hidle hroom]

theorem capped_transitionToRunning (hs : s.Capped config) :
    (s.transitionToRunning id draw).2.Capped config := by
  refine capped_lifecycle hs (.transitionToRunning draw) fun hroom => ?_
  unfold transitionToRunning
  split
  · rfl
  next handle hget =>
  split
  · rfl
  split
  · rfl
  · next hnone =>
    refine absurd (room_of_checkCaps hget (fun m hm => ?_) hnone) hroom
    simp [AutonomyLevel.fromManifest, numeric_fromNumeric hm]

theorem capped_restartAgent {draw' : Nat} (hs : s.Capped config) :
    (s.restartAgent id draw draw').2.Capped config := by
  refine capped_lifecycle hs (.restartAgent draw draw') fun hroom => ?_
  unfold restartAgent
  split
  · rfl
  next handle hget =>
  split
  · rfl
  · next hnone =>
    refine absurd (room_of_checkCaps hget (fun m hm => ?_) hnone) hroom
    simp [numeric_fromNumeric hm]

/-- Stopping, pausing and resuming leave an inactive agent alone. -/
theorem idle_unchanged (draw : Nat)
    (hidle : ∀ handle ∈ s.agents.get? id, handle.state.isActive = false) :
    (s.stopAgent id draw).2 = s ∧ (s.pauseAgent id).2 = s ∧ (s.resumeAgent id).2 = s := by
  unfold stopAgent pauseAgent resumeAgent
  cases hget : s.agents.get? id with
  | none => exact ⟨rfl, rfl, rfl⟩
  | some handle =>
    have hstate := hidle handle hget
    cases h : handle.state <;> simp_all [AgentState.isActive]

/-- A lifecycle call keeps the caps, if it leaves an inactive agent alone. -/
theorem capped_of_idle {answer : Returned Unit} (hs : s.Capped config)
    (hdoes : Lifecycle id s answer)
    (hidle : (∀ handle ∈ s.agents.get? id, handle.state.isActive = false) → answer.2 = s) :
    answer.2.Capped config := by
  refine capped_lifecycle hs hdoes fun hroom => hidle fun handle hget => ?_
  exact Bool.eq_false_iff.mpr fun hactive => hroom (room_of_active hs hget hactive)

/-- An agent that enters without being active is not counted. -/
theorem capped_registerAgent {manifest : AgentManifest} {state : AgentState}
    {audited : Bool × Bool} (hstate : state.isActive = false) (hs : s.Capped config) :
    (s.registerAgent id manifest state audited).2.Capped config := by
  simp only [registerAgent]
  split
  · exact hs
  next hfresh =>
  rw [Option.not_isSome_iff_eq_none] at hfresh
  split
  · exact hs
  · split <;> exact ⟨hs.configured, fun cap hcap => by
      simpa [active, Table.count_insert hfresh, AgentHandle.activeAt, hstate] using
        hs.caps cap hcap⟩

theorem room_crush {target : AgentState} (h : s.Capped config ∧ Room id s) :
    (s.crushAgentState id target).Capped config ∧ Room id (s.crushAgentState id target) := by
  have htransition := (Room.lives id).lifecycle (.transition s target) h
  unfold crushAgentState
  split
  · next heq => rwa [heq] at htransition
  · next heq =>
    rw [heq] at htransition
    exact room_modify (fun _ => .inl rfl) htransition

theorem capped_actOnSafety {noted audited : Bool} {action : SafetyAction} (hs : s.Capped config) :
    (s.actOnSafety id noted action audited).2.Capped config := by
  unfold actOnSafety
  split
  · exact hs
  split
  · exact hs
  cases action with
  | «continue» => exact hs
  | degraded reason => exact hs
  | halted reason reportId =>
    simp only [applySafetyAction]
    split
    · next hactive =>
      cases hget : s.agents.get? id with
      | none => simp [hget] at hactive
      | some handle =>
        rw [hget] at hactive
        exact (room_crush (room_crush ⟨hs, room_of_active hs hget hactive⟩)).1
    · exact hs

/-- An operation of the supervisor. -/
inductive Command where
  | call (call : Call)
  | startAgent (id : AgentId) (manifest : AgentManifest) (audited : Bool × Bool) (draw : Nat)
  | recordSubsystemMetric (id : AgentId) (answer : SafetyAction) (audited : Bool)
  | manualHaltAgent (id : AgentId) (operatorId reason : Text) (noted : Bool) (reportId : Text)

/-- The supervisor after an operation, whatever it answers. -/
def Supervisor.perform (s : Supervisor) : Command → Supervisor
  | .call call => (s.run call).2
  | .startAgent id manifest audited draw => (s.startAgentWithId id manifest audited draw).2
  | .recordSubsystemMetric id answer audited => (s.recordSubsystemMetric id answer audited).2
  | .manualHaltAgent id operatorId reason noted reportId =>
    (s.manualHaltAgent id operatorId reason noted reportId).2

/-- The operation registers agents as `Created` or `Stopped` only. -/
def Command.registersIdle : Command → Bool
  | .call (.registerAgent _ _ state _) => state = .created || state = .stopped
  | _ => true

theorem capped_perform {command : Command} (hidle : command.registersIdle = true)
    (hs : s.Capped config) : (s.perform command).Capped config := by
  cases command with
  | call call =>
    cases call with
    | registerAgent _ _ state =>
      refine capped_registerAgent ?_ hs
      cases state <;> first | rfl | cases hidle
    | reserveFuel => exact (capped_pays _).reserveFuel hs
    | commitFuel => exact (capped_pays _).commitFuel hs
    | cancelFuel => exact (capped_pays _).handle s mild_fuel hs
    | recordLlmSpend => exact (capped_pays _).recordLlmSpend hs
    | transitionToRunning => exact capped_transitionToRunning hs
    | stopAgent => exact capped_of_idle hs (.stopAgent _) fun h => (idle_unchanged _ h).1
    | restartAgent => exact capped_restartAgent hs
    | pauseAgent => exact capped_of_idle hs .pauseAgent fun h => (idle_unchanged 0 h).2.1
    | resumeAgent => exact capped_of_idle hs .resumeAgent fun h => (idle_unchanged 0 h).2.2
    | restoreFuelReport => exact (capped_pays _).restoreFuelReport hs
  | startAgent id manifest audited draw =>
    have hregister : (s.registerAgent id manifest .created audited).2.Capped config :=
      capped_registerAgent rfl hs
    simp only [perform, startAgentWithId]
    split
    · next heq => rwa [heq] at hregister
    · next heq =>
      rw [heq] at hregister
      exact capped_transitionToRunning hregister
  | recordSubsystemMetric | manualHaltAgent => exact capped_actOnSafety hs

/-- Never more L5 or L6 agents are active than configured. -/
theorem caps_are_kept (config : SupervisorConfig) (commands : List Command)
    (hidle : ∀ command ∈ commands, command.registersIdle = true) :
    let s := commands.foldl perform { config }
    s.active 5 ≤ config.maxL5Agents ∧ s.active 6 ≤ config.maxL6Agents := by
  have hcapped : ∀ s : Supervisor, s.Capped config →
      (commands.foldl perform s).Capped config := by
    induction commands with
    | nil => exact fun s hs => hs
    | cons command commands ih =>
      rw [forall_mem_cons] at hidle
      exact fun s hs => ih hidle.2 _ (capped_perform hidle.1 hs)
  have hend := (hcapped { config } ⟨rfl, fun _ _ => Nat.zero_le _⟩).caps
  exact ⟨hend _ (.head _), hend _ (.tail _ (.head _))⟩

/-- Two L5 agents that are both started, where one may be active. -/
def twoSovereigns : List Command :=
  let manifest : AgentManifest := ⟨[], 10, some 5, none, none, none, []⟩
  [.startAgent 0 manifest (true, true) 0, .startAgent 1 manifest (true, true) 1,
    .call (.pauseAgent 0), .call (.restartAgent 1 2 3)]

theorem caps_are_kept_twoSovereigns :
    let s := twoSovereigns.foldl perform { config := {} }
    s.active 5 = 1 ∧ s.active 5 ≤ 1 ∧ s.active 6 ≤ 6 :=
  ⟨by decide, caps_are_kept {} twoSovereigns (forall_iff_forall_mem.mp ⟨rfl, rfl, rfl, rfl⟩)⟩

end NexusOs.Fuel
