import NexusOs.Fuel.Supervisor

/-!
# Scheduled executions

`scheduler/executor.rs`: a scheduled task passes a capability check, a fuel reservation, the
adversarial arena and the check for a human before it runs. Its audit record and log lines are best
effort and left out. Read `execute_governed_iff` first: a reservation is always settled once, but a
registered agent that cannot pay runs all the same, as an unregistered one would.
-/

namespace NexusOs.Fuel

open Utf8

/-! ## Tasks -/

/-- What an execution uses of `serde_json::Value`. -/
structure Values (J : Type) where
  get : J → Text → Option J
  asStr : J → Option Text
  str : Text → J
  object : List (Text × J) → J
  null : J

/-- The fields of `ScheduledTask` that an execution reads. -/
structure ScheduledTask (J : Type) where
  taskType : Text
  parameters : J

/-- The fields of `ScheduleEntry` that an execution reads; the failure policy only picks a log line.
-/
structure ScheduleEntry (J : Type) where
  id : Nat
  agentDid : Text
  name : Text
  task : ScheduledTask J
  maxFuelPerRun : UInt64
  requiresHitl : Bool

/-- The errors of `SchedulerError` that an execution makes. -/
inductive SchedulerError where
  | capabilityDenied (agentDid : Text)
  | adversarialBlock (summary : Text)
  | hitlRequired (name : Text)
  | missingParam (name : Text)
  | unknownTaskType (taskType : Text)

/-- The text of an error. -/
def SchedulerError.toText : SchedulerError → Text
  | .capabilityDenied agentDid => "capability denied for agent: " ++ agentDid
  | .adversarialBlock summary => "adversarial check blocked: " ++ summary
  | .hitlRequired name => "HITL approval required for scheduled task: " ++ name
  | .missingParam name => "missing parameter: " ++ name
  | .unknownTaskType taskType => "unknown task type: " ++ taskType

variable {J : Type}

/-- A parameter of a task that has to be a string. -/
def ScheduledTask.param (task : ScheduledTask J) (v : Values J) (name : Text) :
    Except SchedulerError Text :=
  match (v.get task.parameters name).bind v.asStr with
  | some text => .ok text
  | none => .error (.missingParam name)

/-- `run_task`. -/
def runTask (v : Values J) (task : ScheduledTask J) (triggerData : Option J) :
    Except SchedulerError J := do
  if task.taskType = "run_agent" then
    let agentDid ← task.param v "agent_did"
    let input := ((v.get task.parameters "input").or triggerData).getD (v.object [])
    return v.object [("status", v.str "executed"), ("agent", v.str agentDid), ("input", input)]
  else if task.taskType = "send_notification" then
    let provider ← task.param v "provider"
    let message ← task.param v "message"
    return v.object [("status", v.str "sent"), ("provider", v.str provider),
      ("message", v.str message)]
  else if task.taskType = "execute_command" then
    let command ← task.param v "command"
    return v.object [("status", v.str "executed"), ("command", v.str command)]
  else .error (.unknownTaskType task.taskType)

/-! ## Executions -/

/-- What an execution does with fuel and with its task. -/
inductive Deed where
  | reserved (reservation : SupervisorFuelReservation)
  | cancelled (reservation : SupervisorFuelReservation)
  | committed (reservation : SupervisorFuelReservation) (cost : UInt64)
  | ran
  deriving DecidableEq

/-- What an execution finds: the id that the agent's DID names, or a new one; the id drawn for a
reservation; the arena's verdict with its summary; and the task's duration. -/
structure Surroundings where
  agentId : AgentId
  draw : Nat
  passed : Bool
  summary : Text
  durationMs : UInt64

/-- `ExecutionResult`. -/
structure ExecutionResult (J : Type) where
  scheduleId : Nat
  success : Bool
  output : J
  durationMs : UInt64
  error : Option Text

/-- The supervisor during an execution, and what was done. -/
structure Stage where
  supervisor : Supervisor
  deeds : List Deed

/-- The reservation, which is skipped on any error. -/
def Stage.reserve (e : Stage) (id : AgentId) (maxFuel : UInt64) (draw : Nat) :
    Option SupervisorFuelReservation × Stage :=
  match e.supervisor.reserveFuel id maxFuel "scheduled_task" draw with
  | (.ok reservation, s) => (some reservation, ⟨s, e.deeds ++ [.reserved reservation]⟩)
  | (.error _, s) => (none, ⟨s, e.deeds⟩)

/-- The cancellation of the reservation, if there is one. -/
def Stage.cancel (e : Stage) : Option SupervisorFuelReservation → Stage
  | some reservation => ⟨e.supervisor.cancelFuel reservation, e.deeds ++ [.cancelled reservation]⟩
  | none => e

/-- The commit of the reservation, if any; its error is only logged. -/
def Stage.commit (e : Stage) (cost : UInt64) : Option SupervisorFuelReservation → Stage
  | some reservation =>
    ⟨(e.supervisor.commitFuel reservation cost).2, e.deeds ++ [.committed reservation cost]⟩
  | none => e

/-- The agent may run scheduled tasks. -/
def AgentHandle.scheduled (h : AgentHandle) : Bool :=
  h.manifest.capabilities.contains "scheduled_execution"

/-- `ScheduledExecutor::execute`. -/
def execute (v : Values J) (s : Supervisor) (entry : ScheduleEntry J) (triggerData : Option J)
    (around : Surroundings) : Except SchedulerError (ExecutionResult J) × Stage :=
  if (s.agents.get? around.agentId).any fun h => !h.scheduled then
    (.error (.capabilityDenied entry.agentDid), ⟨s, []⟩)
  else
    let (reservation, e) := Stage.reserve ⟨s, []⟩ around.agentId entry.maxFuelPerRun around.draw
    if !around.passed then (.error (.adversarialBlock around.summary), e.cancel reservation)
    else if entry.requiresHitl then (.error (.hitlRequired entry.name), e.cancel reservation)
    else
      let result := runTask v entry.task triggerData
      let e : Stage := ⟨e.supervisor, e.deeds ++ [.ran]⟩
      -- one unit of fuel for ten milliseconds
      let e := e.commit (min (around.durationMs / 10) entry.maxFuelPerRun) reservation
      let durationMs := around.durationMs
      match result with
      | .ok output => (.ok ⟨entry.id, true, output, durationMs, none⟩, e)
      | .error error => (.ok ⟨entry.id, false, v.null, durationMs, some error.toText⟩, e)

/-! ## The pipeline -/

/-- The deed settles a reservation. -/
def Deed.settles (r : SupervisorFuelReservation) : Deed → Bool
  | .cancelled r' | .committed r' _ => r' = r
  | _ => false

/-- Every reservation made is committed once or cancelled once. -/
def SettledOnce (deeds : List Deed) : Prop :=
  ∀ r, .reserved r ∈ deeds → deeds.countP (Deed.settles r) = 1

/-- What the stages before a task have to have found and done. -/
structure Governed (entry : ScheduleEntry J) (around : Surroundings) (handle : AgentHandle)
    (deeds : List Deed) : Prop where
  capable : handle.scheduled = true
  reserved : .reserved ⟨around.draw, around.agentId, entry.maxFuelPerRun, "scheduled_task"⟩ ∈ deeds
  passed : around.passed = true
  noHitl : entry.requiresHitl = false

variable {v : Values J} {s : Supervisor} {entry : ScheduleEntry J} {data : Option J}
  {around : Surroundings} {handle : AgentHandle}

/-- The reservation that an execution gets. -/
def reservation? (s : Supervisor) (entry : ScheduleEntry J) (around : Surroundings) :
    Option SupervisorFuelReservation :=
  (s.reserveFuel around.agentId entry.maxFuelPerRun "scheduled_task" around.draw).1.toOption

/-- What an execution does, by the stage that ends it. -/
theorem execute_deeds : (execute v s entry data around).2.deeds =
    if (s.agents.get? around.agentId).any fun h => !h.scheduled then []
    else (reservation? s entry around).toList.map .reserved ++
      if !around.passed || entry.requiresHitl then
        (reservation? s entry around).toList.map .cancelled
      else .ran :: (reservation? s entry around).toList.map
        (.committed · (min (around.durationMs / 10) entry.maxFuelPerRun)) := by
  unfold execute
  split
  · rfl
  simp only [reservation?, Stage.reserve]
  generalize s.reserveFuel around.agentId entry.maxFuelPerRun "scheduled_task" around.draw = answer
  obtain ⟨_ | reservation, s'⟩ := answer <;> cases around.passed <;> cases entry.requiresHitl <;>
    first | rfl | (cases runTask v entry.task data <;> rfl)

/-- An agent that is registered gets a reservation if it can pay. -/
theorem reservation?_of_get (h : s.agents.get? around.agentId = some handle) :
    reservation? s entry around = if handle.remainingFuel < entry.maxFuelPerRun then none
      else some ⟨around.draw, around.agentId, entry.maxFuelPerRun, "scheduled_task"⟩ := by
  simp only [reservation?, Supervisor.reserveFuel, h]
  split <;> rfl

/-- On every path a reservation is settled once. A registered agent runs only through the whole
pipeline exactly if, where nothing else stops its task, it can pay for the reservation. -/
theorem execute_governed_iff (v : Values J) (s : Supervisor) (entry : ScheduleEntry J)
    (data : Option J) (around : Surroundings) :
    SettledOnce (execute v s entry data around).2.deeds ∧
    ∀ handle, s.agents.get? around.agentId = some handle →
      ((.ran ∈ (execute v s entry data around).2.deeds →
          Governed entry around handle (execute v s entry data around).2.deeds) ↔
        (handle.scheduled = true → around.passed = true → entry.requiresHitl = false →
          entry.maxFuelPerRun ≤ handle.remainingFuel)) := by
  rw [execute_deeds]
  constructor
  · intro r
    cases reservation? s entry around with
    | none => split <;> simp
    | some reservation =>
      split
      · simp
      · split <;> simp +contextual [Deed.settles]
  intro handle hget
  rw [reservation?_of_get hget, hget, Option.any_some]
  by_cases hpays : handle.remainingFuel < entry.maxFuelPerRun
  · have hnot : ¬entry.maxFuelPerRun ≤ handle.remainingFuel := UInt64.not_le.mpr hpays
    rw [if_pos hpays]
    constructor
    · intro h hcapable hpassed hhitl
      have hgoverned := h (by simp [hcapable, hpassed, hhitl])
      have hreserved := hgoverned.reserved
      simp at hreserved
    · intro h hran
      refine absurd (h ?_ ?_ ?_) hnot <;> revert hran <;> cases handle.scheduled <;>
        cases around.passed <;> cases entry.requiresHitl <;> simp
  · refine iff_of_true (fun hran => ?_) fun _ _ _ => UInt64.not_lt.mp hpays
    rw [if_neg hpays] at hran ⊢
    revert hran
    cases hcapable : handle.scheduled <;> cases hpassed : around.passed <;>
      cases hhitl : entry.requiresHitl <;> simp
    exact ⟨hcapable, by simp, hpassed, hhitl⟩

/-- A supervisor whose one agent has so much fuel and may run tasks. -/
def fuelled (fuel : UInt64) : Supervisor :=
  (Supervisor.registerAgent { config := {} } 0
    ⟨[], fuel, none, none, none, none, ["scheduled_execution"]⟩ .created (true, true)).2

/-- A task for two units of fuel, which nothing stops. -/
def freeTask : ScheduleEntry Unit × Surroundings :=
  (⟨0, "0", [], ⟨[], ()⟩, 2, false⟩, ⟨0, 0, true, [], 0⟩)

def noValues : Values Unit := ⟨fun _ _ => none, fun _ => none, fun _ => (), fun _ => (), ()⟩

/-- An agent with one unit of fuel runs a task for two. -/
theorem unpaid_task_runs : ¬∀ (s : Supervisor) (entry : ScheduleEntry Unit) (around : Surroundings)
    (handle : AgentHandle), s.agents.get? around.agentId = some handle →
      .ran ∈ (execute noValues s entry none around).2.deeds →
      Governed entry around handle (execute noValues s entry none around).2.deeds := by
  intro h
  have hgoverned := h (fuelled 1) freeTask.1 freeTask.2 _ rfl (by decide)
  exact absurd hgoverned.reserved (by decide)

theorem paid_task_runs : ∃ handle, (fuelled 2).agents.get? 0 = some handle ∧
    .ran ∈ (execute noValues (fuelled 2) freeTask.1 none freeTask.2).2.deeds ∧
    Governed freeTask.1 freeTask.2 handle
      (execute noValues (fuelled 2) freeTask.1 none freeTask.2).2.deeds := by
  have hran : .ran ∈ (execute noValues (fuelled 2) freeTask.1 none freeTask.2).2.deeds := by decide
  exact ⟨_, rfl, hran, ((execute_governed_iff noValues (fuelled 2) freeTask.1 none
    freeTask.2).2 _ rfl).mpr (fun _ _ _ => by decide) hran⟩

end NexusOs.Fuel
