import NexusOs.Fuel.Supervisor

/-!
# What a call does to an agent's account

An account is the handle of an agent with its fuel ledger. `Holds` says something of an agent's
account, if there is such an agent; each part of a call is described by what it makes of such a
property, and by leaving every other agent alone (`Untouched`).
-/

namespace NexusOs.Fuel

open Utf8 Option AgentFuelLedger Supervisor

variable {target : AgentState} {handle : AgentHandle} {level : AutonomyLevel} {error : AgentError}
  {maxCost costUnits units : UInt64} {actionType model reason : Text} {draw : Nat}
  {reservation : SupervisorFuelReservation} {inputTokens outputTokens : UInt32}
  {onViolation : Supervisor → Supervisor} {answer : Returned Unit}

/-- A property of an account, whose ledger may be missing. -/
abbrev AccountProp := AgentHandle → Option AgentFuelLedger → Prop

/-- The account of the agent satisfies `P`, if the agent is registered. -/
def Holds (s : Supervisor) (id : AgentId) (P : AccountProp) : Prop :=
  ∀ h, s.agents.get? id = some h → P h (s.fuelLedgers.get? id)

/-- The account of the agent is the same. -/
def Untouched (s s' : Supervisor) (id : AgentId) : Prop :=
  s'.agents.get? id = s.agents.get? id ∧ s'.fuelLedgers.get? id = s.fuelLedgers.get? id

variable {s s' s'' : Supervisor} {id other : AgentId} {P Q : AccountProp} (l : AgentFuelLedger)

theorem Holds.mono (h : Holds s id P) (hPQ : ∀ h l, P h l → Q h l) : Holds s id Q := by
  intro handle hhandle
  exact hPQ handle _ (h handle hhandle)

theorem Untouched.refl (s : Supervisor) (id : AgentId) : Untouched s s id := ⟨rfl, rfl⟩

theorem Untouched.trans (h : Untouched s s' id) (h' : Untouched s' s'' id) : Untouched s s'' id :=
  ⟨h'.1.trans h.1, h'.2.trans h.2⟩

theorem Holds.of_untouched (h : Holds s id P) (hsame : Untouched s s' id) : Holds s' id P := by
  intro handle hhandle
  rw [hsame.1] at hhandle
  rw [hsame.2]
  exact h handle hhandle

/-! ## The parts of a call, for the agent it is about -/

theorem Holds.modify (h : Holds s id P) {f : AgentHandle → AgentHandle}
    (hPQ : ∀ handle l, P handle l → Q (f handle) l) :
    Holds { s with agents := s.agents.modify id f } id Q := by
  intro handle hhandle
  rw [Table.get?_modify, if_pos rfl] at hhandle
  obtain ⟨handle', hhandle', rfl⟩ := map_eq_some_iff.mp hhandle
  exact hPQ handle' _ (h handle' hhandle')

theorem Holds.setFuel (h : Holds s id P) {f : UInt64 → UInt64} (hPQ : ∀ handle l, P handle l →
      Q { handle with remainingFuel := f handle.remainingFuel } l) : Holds (s.setFuel id f) id Q :=
  h.modify hPQ

theorem Holds.violate (h : Holds s id P)
    (hPQ : ∀ handle l, P handle l → Q handle.violate (l.map registerViolation)) :
    Holds (s.violate id) id Q := by
  intro handle hhandle
  simp only [Supervisor.violate, Table.get?_modify] at hhandle ⊢
  obtain ⟨handle', hhandle', rfl⟩ := map_eq_some_iff.mp hhandle
  exact hPQ handle' _ (h handle' hhandle')

/-- A transition changes nothing but the state. -/
theorem Holds.transitionAgentState (h : Holds s id P)
    (hP : ∀ handle l state, P handle l → P { handle with state } l) :
    Holds (s.transitionAgentState id target).2 id P := by
  unfold Supervisor.transitionAgentState
  split
  · exact h
  · split
    · exact h.modify fun handle l hpl => hP handle l target hpl
    · exact h

/-- What is known of the handle may go into the property. -/
theorem Holds.and_eq (h : Holds s id P) (hhandle : s.agents.get? id = some handle) :
    Holds s id fun handle' l => P handle' l ∧ handle' = handle := by
  intro handle' hhandle'
  exact ⟨h handle' hhandle', some.inj (hhandle'.symm.trans hhandle)⟩

theorem isViolation_transition : isViolation (s.transitionAgentState id target).1 = false := by
  unfold transitionAgentState
  split
  · rfl
  · split <;> rfl

theorem isViolation_checkCap {capped : AutonomyLevel} {max : Nat}
    (h : s.checkCap id level capped max = some error) : error.isViolation = false := by
  simp only [checkCap] at h
  split at h
  · cases h
    rfl
  · cases h

theorem isViolation_checkCaps (h : s.checkCaps id level = some error) :
    error.isViolation = false := by
  rcases or_eq_some_iff.mp h with h | ⟨-, h⟩
  · exact isViolation_checkCap h
  · exact isViolation_checkCap h

/-- A reservation is taken from the fuel, or a violation is applied; `Q` says what holds then. -/
theorem Holds.reserveFuel (h : Holds s id P) {Q : Bool → AccountProp}
    (hok : ∀ handle l, P handle l → maxCost ≤ handle.remainingFuel →
      Q false { handle with remainingFuel := handle.remainingFuel - maxCost } l)
    (hviolated : ∀ handle l, P handle l → handle.remainingFuel < maxCost →
      Q true handle.violate (l.map registerViolation)) :
    Holds (s.reserveFuel id maxCost actionType draw).2 id
      (Q (isViolation (s.reserveFuel id maxCost actionType draw).1)) := by
  unfold Supervisor.reserveFuel
  split
  · next hnone =>
    intro handle hhandle
    rw [hnone] at hhandle
    cases hhandle
  · next handle hhandle =>
    split
    · next hlt =>
      refine (h.and_eq hhandle).violate ?_
      rintro handle' l ⟨hP, rfl⟩
      exact hviolated handle' l hP hlt
    · next hle =>
      refine (h.and_eq hhandle).setFuel ?_
      rintro handle' l ⟨hP, rfl⟩
      exact hok handle' l hP (UInt64.not_lt.mp hle)

theorem reserveFuel_eq_ok (h : s.reserveFuel id maxCost actionType draw = (.ok reservation, s')) :
    reservation = ⟨draw, id, maxCost, actionType⟩ := by
  unfold reserveFuel at h
  split at h
  · cases h
  split at h
  · cases h
  · cases h
    rfl

/-- A granted reservation fits into the fuel of a registered agent. -/
theorem fits_of_reserveFuel (h : s.reserveFuel id maxCost actionType draw = (.ok reservation, s')) :
    ∃ handle, s.agents.get? id = some handle ∧ maxCost ≤ handle.remainingFuel := by
  unfold reserveFuel at h
  split at h
  · cases h
  next handle hhandle =>
  split at h
  · cases h
  · next hle => exact ⟨handle, hhandle, UInt64.not_lt.mp hle⟩

theorem reserveFuel_eq_error (h : s.reserveFuel id maxCost actionType draw = (.error error, s')) :
    error.isViolation = true ∨ error.isViolation = false ∧ s' = s := by
  unfold reserveFuel at h
  split at h
  · cases h
    exact .inr ⟨rfl, rfl⟩
  split at h
  · cases h
    exact .inl rfl
  · cases h

/-- A spend is booked, and a violation applied if the ledger says so; `Q` says what holds then. -/
theorem Holds.recordSpend (h : Holds s id P) {R : AccountProp} {Q : Bool → AccountProp}
    (hmissing : ∀ handle, P handle none → Q false handle none)
    (hok : ∀ handle l, P handle (some l) →
      Q false handle (some (l.recordLlmSpend model inputTokens outputTokens costUnits).2))
    (hon : ∀ s, (Holds s id fun handle l' => ∃ l, P handle (some l) ∧
      l' = some (l.recordLlmSpend model inputTokens outputTokens costUnits).2) →
      Holds (onViolation s) id R) (hviolated : ∀ handle l, R handle l →
      Q true handle.violate (l.map registerViolation)) :
    Holds (s.recordSpend id model inputTokens outputTokens costUnits reason onViolation).2 id
      (Q (isViolation
        (s.recordSpend id model inputTokens outputTokens costUnits reason onViolation).1)) := by
  unfold Supervisor.recordSpend
  cases hledger : s.fuelLedgers.get? id with
  | none =>
    intro handle hhandle
    have hP := h handle hhandle
    rw [hledger] at hP ⊢
    exact hmissing handle hP
  | some ledger =>
    obtain ⟨result, ledger', hspend⟩ :
        ∃ result ledger', ledger.recordLlmSpend model inputTokens outputTokens costUnits =
          (result, ledger') := ⟨_, _, rfl⟩
    have hbook : ∀ {Q' : AccountProp},
        (∀ handle, P handle (some ledger) → Q' handle (some ledger')) →
        Holds { s with fuelLedgers := s.fuelLedgers.insert id ledger' } id Q' := by
      intro Q' hQ' handle hhandle
      have hP := h handle hhandle
      rw [hledger] at hP
      simpa using hQ' handle hP
    simp only [hspend]
    cases result with
    | ok u =>
      refine hbook fun handle hP => ?_
      have := hok handle ledger hP
      rwa [hspend] at this
    | error violation =>
      refine .violate (hon _ (hbook fun handle hP => ⟨ledger, hP, ?_⟩)) hviolated
      rw [hspend]

theorem fits_of_recordLlmSpend (hagent : s.agents.get? id = some handle)
    (h : s.recordLlmSpend id model inputTokens outputTokens costUnits = (.ok (), s')) :
    costUnits ≤ handle.remainingFuel := by
  unfold Supervisor.recordLlmSpend at h
  simp only [hagent] at h
  split at h
  · cases h
  · next hle => exact UInt64.not_lt.mp hle

/-! ## The lifecycle -/

/-- What the lifecycle calls do: they pay and change states, until a part fails. -/
inductive Lifecycle (id : AgentId) : Supervisor → Returned Unit → Prop where
  | nothing (s : Supervisor) : Lifecycle id s (.ok (), s)
  | refused (s : Supervisor) (error : AgentError) : error.isViolation = false →
      Lifecycle id s (.error error, s)
  | transition (s : Supervisor) (target : AgentState) :
      Lifecycle id s (s.transitionAgentState id target)
  | consumed (s : Supervisor) (reason : Text) (units : UInt64) (draw : Nat) :
      Lifecycle id s (s.consumeFuelUnits id reason units draw)
  | andThen (s : Supervisor) (part : Returned Unit)
      (next : Supervisor → Returned Unit) :
      Lifecycle id s part → (∀ s, Lifecycle id s (next s)) → Lifecycle id s (andThen part next)

namespace Lifecycle

theorem transitionToRunning (draw : Nat) : Lifecycle id s (s.transitionToRunning id draw) := by
  unfold Supervisor.transitionToRunning
  split
  · exact .refused _ _ rfl
  split
  · exact .nothing _
  split
  · next hcaps => exact .refused _ _ (isViolation_checkCaps hcaps)
  · exact .andThen _ _ _ (.transition _ _) fun _ => .andThen _ _ _ (.consumed _ _ _ _) fun _ =>
    .transition _ _

theorem stopAgent (draw : Nat) : Lifecycle id s (s.stopAgent id draw) := by
  have hpays : Lifecycle id s (Fuel.andThen (s.consumeFuelUnits id "supervisor.stop" 2 draw)
      fun s => Fuel.andThen (s.transitionAgentState id .stopping) fun s =>
      s.transitionAgentState id .stopped) :=
    .andThen _ _ _ (.consumed _ _ _ _) fun _ => .andThen _ _ _ (.transition _ _) fun _ =>
      .transition _ _
  unfold Supervisor.stopAgent
  split
  · exact .refused _ _ rfl
  split
  · exact hpays
  · exact hpays
  · exact .nothing _
  · exact .nothing _
  · exact .nothing _
  · exact .refused _ _ rfl

theorem restartAgent (draw draw' : Nat) : Lifecycle id s (s.restartAgent id draw draw') := by
  unfold Supervisor.restartAgent
  split
  · exact .refused _ _ rfl
  split
  · next hcaps => exact .refused _ _ (isViolation_checkCaps hcaps)
  refine .andThen _ _ _ ?_ fun _ => .andThen _ _ _ (.consumed _ _ _ _) fun _ =>
    .andThen _ _ _ (.transition _ _) fun _ => .transition _ _
  unfold stopIfActive
  split
  · exact stopAgent draw
  · exact stopAgent draw
  · exact .nothing _

theorem pauseAgent : Lifecycle id s (s.pauseAgent id) := by
  unfold Supervisor.pauseAgent
  split
  · exact .refused _ _ rfl
  split
  · exact .transition _ _
  · exact .nothing _
  · exact .refused _ _ rfl

theorem resumeAgent : Lifecycle id s (s.resumeAgent id) := by
  unfold Supervisor.resumeAgent
  split
  · exact .refused _ _ rfl
  split
  · exact .transition _ _
  · exact .nothing _
  · exact .refused _ _ rfl

end Lifecycle

/-!
## Calls that pay what they reserve

`Q false` says what is true of an account while no violation was applied, `Q true` once one was.
-/

/-- The family is kept by paying, by a violation and by a change of state. -/
structure Paying (Q : Bool → AccountProp) : Prop where
  state : ∀ {handle l} state, Q false handle l → Q false { handle with state } l
  missing : ∀ {handle units}, Q false handle none → units ≤ handle.remainingFuel →
    Q false { handle with remainingFuel := handle.remainingFuel - units } none
  pays : ∀ {handle l units} model inputTokens outputTokens, Q false handle (some l) →
    units ≤ handle.remainingFuel →
    Q false { handle with remainingFuel := handle.remainingFuel - units }
      (some (l.recordLlmSpend model inputTokens outputTokens units).2)
  violates : ∀ {handle handle' : AgentHandle} {l l' : Option AgentFuelLedger}, Q false handle l →
    handle'.manifest = handle.manifest →
    l'.map (fun l => l.budget.capUnits) = l.map (fun l => l.budget.capUnits) →
    Q true handle'.violate l'

/-- The account with the units taken from the fuel, before they are booked. -/
def Taken (P : AccountProp) (units : UInt64) : AccountProp := fun handle' l =>
  ∃ handle, P handle l ∧ units ≤ handle.remainingFuel ∧
    handle' = { handle with remainingFuel := handle.remainingFuel - units }

theorem AgentFuelLedger.judge_budget (costUnits : UInt64) :
    (l.judge costUnits).2.budget = l.budget := by
  unfold judge
  split
  split
  · rfl
  · split <;> rfl

theorem AgentFuelLedger.recordLlmSpend_budget (model : Text)
    (inputTokens outputTokens : UInt32) (costUnits : UInt64) :
    (l.recordLlmSpend model inputTokens outputTokens costUnits).2.budget =
      l.budget.recordSpend costUnits :=
  judge_budget _ _

variable {call : Call}

section Paying

variable {Q : Bool → AccountProp} {α : Type}

/-- Taken units are booked; before a violation is applied the fuel may still change. -/
theorem Holds.book (hQ : Paying Q) (h : Holds s id (Taken (Q false) units))
    (hon : ∀ s (P : AccountProp), Holds s id P →
      Holds (onViolation s) id fun handle l => ∃ fuel, P { handle with remainingFuel := fuel } l) :
    Holds (s.recordSpend id model inputTokens outputTokens units reason onViolation).2 id
      (Q (isViolation
        (s.recordSpend id model inputTokens outputTokens units reason onViolation).1)) := by
  refine h.recordSpend ?_ ?_ (fun s hs => hon s _ hs) ?_
  · rintro _ ⟨handle, hP, hle, rfl⟩
    exact hQ.missing hP hle
  · rintro _ l ⟨handle, hP, hle, rfl⟩
    exact hQ.pays model inputTokens outputTokens hP hle
  rintro handle' l' ⟨fuel, l, ⟨handle, hP, -, hhandle⟩, rfl⟩
  refine hQ.violates hP ?_ ?_
  · exact congrArg (·.manifest) hhandle
  · simp only [map_some, registerViolation,
      recordLlmSpend_budget, MonthlyBudget.recordSpend]

section

variable (h : Holds s id (Q false))

include h

theorem Holds.reserve (hQ : Paying Q) :
    Holds (s.reserveFuel id units actionType draw).2 id
      (bif isViolation (s.reserveFuel id units actionType draw).1 then Q true
        else Taken (Q false) units) :=
  h.reserveFuel (Q := fun b => bif b then Q true else Taken (Q false) units)
    (fun handle _ hP hle => ⟨handle, hP, hle, rfl⟩)
    (fun _ l hP _ => hQ.violates hP rfl (by cases l <;> rfl))

theorem Holds.consumeFuelUnits (hQ : Paying Q) :
    Holds (s.consumeFuelUnits id reason units draw).2 id
      (Q (isViolation (s.consumeFuelUnits id reason units draw).1)) := by
  have hreserve : Holds (s.reserveFuel id units reason draw).2 id
      (bif isViolation (s.reserveFuel id units reason draw).1 then Q true
        else Taken (Q false) units) := h.reserve hQ
  unfold Supervisor.consumeFuelUnits
  split
  · next error s' heq =>
    rcases reserveFuel_eq_error heq with hviolation | ⟨hviolation, rfl⟩
    · rw [heq] at hreserve
      simp only [isViolation, hviolation] at hreserve ⊢
      exact hreserve
    · simp only [isViolation, hviolation]
      exact h
  · next reservation s' heq =>
    obtain rfl := reserveFuel_eq_ok heq
    rw [heq] at hreserve
    have hrefund : ¬ 0 < saturatingSub units units := by simp [saturatingSub]
    simp only [commitFuel, if_neg hrefund]
    exact .book hQ hreserve fun s P hs => hs.mono fun handle l hP => ⟨handle.remainingFuel, hP⟩

theorem Holds.recordLlmSpend (hQ : Paying Q) :
    Holds (s.recordLlmSpend id model inputTokens outputTokens costUnits).2 id
      (Q (isViolation (s.recordLlmSpend id model inputTokens outputTokens costUnits).1)) := by
  unfold Supervisor.recordLlmSpend
  split
  · exact h
  next handle hhandle =>
  split
  · exact h.violate fun _ l hP => hQ.violates hP rfl (by cases l <;> rfl)
  next hle =>
  have htaken : Holds (s.setFuel id (· - costUnits)) id (Taken (Q false) costUnits) := by
    refine (h.and_eq hhandle).setFuel ?_
    rintro handle' l ⟨hP, rfl⟩
    exact ⟨handle', hP, UInt64.not_lt.mp hle, rfl⟩
  exact .book hQ htaken fun s P hs => hs.setFuel fun handle l hP => ⟨handle.remainingFuel, hP⟩

theorem Holds.transition (hQ : Paying Q) :
    Holds (s.transitionAgentState id target).2 id
      (Q (isViolation (s.transitionAgentState id target).1)) := by
  have hafter : Holds (s.transitionAgentState id target).2 id (Q false) :=
    h.transitionAgentState fun _ _ state hP => hQ.state state hP
  rwa [isViolation_transition]

theorem Holds.lifecycle (hQ : Paying Q) (hdoes : Lifecycle id s answer) :
    Holds answer.2 id (Q (isViolation answer.1)) := by
  induction hdoes with
  | nothing s => exact h
  | refused s error herror =>
    rw [show isViolation (.error error : Except AgentError Unit) = false from herror]
    exact h
  | transition s target => exact h.transition hQ
  | consumed s reason units draw => exact h.consumeFuelUnits hQ
  | andThen s part next _ _ hpart hnext =>
    obtain ⟨result, s'⟩ := part
    cases result with
    | error => exact hpart h
    | ok => exact hnext s' (hpart h)

end

/-- The calls that change fuel only by paying. -/
def Call.pays : Call → Bool
  | .recordLlmSpend .. | .transitionToRunning .. | .stopAgent .. | .restartAgent ..
  | .pauseAgent .. | .resumeAgent .. => true
  | .registerAgent .. | .reserveFuel .. | .commitFuel .. | .cancelFuel ..
  | .restoreFuelReport .. => false

@[simp] theorem isViolation_made (reservation : α → Option SupervisorFuelReservation)
    (answer : Returned α) : isViolation (made reservation answer).1 = isViolation answer.1 := by
  obtain ⟨result, s⟩ := answer
  cases result <;> rfl

@[simp] theorem made_snd (reservation : α → Option SupervisorFuelReservation)
    (answer : Returned α) : (made reservation answer).2 = answer.2 := rfl

theorem eq_ok_of_made {answer : Returned SupervisorFuelReservation}
    (h : made some answer = (.ok (some reservation), s)) : answer = (.ok reservation, s) := by
  obtain ⟨result, s'⟩ := answer
  cases result with
  | error => cases h
  | ok => cases h; rfl

theorem Holds.made {reservation : α → Option SupervisorFuelReservation}
    {answer : Returned α} (h : Holds answer.2 id (Q (isViolation answer.1))) :
    Holds (made reservation answer).2 id (Q (isViolation (made reservation answer).1)) := by
  rwa [isViolation_made]

theorem Holds.run (hQ : Paying Q) (h : Holds s call.agent (Q false)) (hpays : call.pays = true) :
    Holds (s.run call).2 call.agent (Q (isViolation (s.run call).1)) := by
  cases call with
  | recordLlmSpend => exact .made (h.recordLlmSpend hQ)
  | transitionToRunning => exact .made (h.lifecycle hQ (.transitionToRunning _))
  | stopAgent => exact .made (h.lifecycle hQ (.stopAgent _))
  | restartAgent => exact .made (h.lifecycle hQ (.restartAgent _ _))
  | pauseAgent => exact .made (h.lifecycle hQ .pauseAgent)
  | resumeAgent => exact .made (h.lifecycle hQ .resumeAgent)
  | _ => cases hpays

end Paying

/-! ## What a call can change at all -/

/-- A change of a handle that keeps its state, and its level unless it takes all of it. -/
def Mild (f : AgentHandle → AgentHandle) : Prop :=
  ∀ h, (f h).state = h.state ∧ ((f h).autonomyLevel = h.autonomyLevel ∨ (f h).autonomyLevel = 0)

theorem mild_fuel {f : AgentHandle → UInt64} : Mild fun h => { h with remainingFuel := f h } :=
  fun _ => ⟨rfl, .inl rfl⟩

/-- A relation across each change that an operation on an agent's fuel makes. -/
structure Pays (id : AgentId) (R : Supervisor → Supervisor → Prop) : Prop where
  refl : ∀ s, R s s
  trans : ∀ {s s' s''}, R s s' → R s' s'' → R s s''
  handle : ∀ s {f}, Mild f → R s { s with agents := s.agents.modify id f }
  ledger : ∀ s l, R s { s with fuelLedgers := s.fuelLedgers.insert id l }
  halts : ∀ s f, R s { s with fuelLedgers := s.fuelLedgers.modify id f }

/-- A relation across each change of a lifecycle call, too. -/
structure Lives (id : AgentId) (R : Supervisor → Supervisor → Prop) : Prop extends Pays id R where
  state : ∀ s target,
    R s { s with agents := s.agents.modify id fun h => { h with state := target } }

/-- A relation across each change that a call about the agent makes. -/
structure Moves (id : AgentId) (R : Supervisor → Supervisor → Prop) : Prop extends Lives id R where
  enters : ∀ {s : Supervisor} handle, s.agents.get? id = none →
    R s { s with agents := s.agents.insert id handle }

variable {R : Supervisor → Supervisor → Prop}

namespace Pays

theorem violate (hR : Pays id R) : R s (s.violate id) :=
  hR.trans (hR.halts s .registerViolation) (hR.handle _ fun _ => ⟨rfl, .inr rfl⟩)

theorem reserveFuel (hR : Pays id R) : R s (s.reserveFuel id maxCost actionType draw).2 := by
  unfold Supervisor.reserveFuel
  split
  · exact hR.refl s
  · split
    · exact hR.violate
    · exact hR.handle s mild_fuel

theorem recordSpend (hR : Pays id R) (hon : ∀ s, R s (onViolation s)) :
    R s (s.recordSpend id model inputTokens outputTokens costUnits reason onViolation).2 := by
  unfold Supervisor.recordSpend
  split
  · exact hR.refl s
  next ledger _ =>
  generalize ledger.recordLlmSpend model inputTokens outputTokens costUnits = spend
  obtain ⟨result, ledger'⟩ := spend
  have hbook := hR.ledger s ledger'
  cases result with
  | ok => exact hbook
  | error => exact hR.trans (hR.trans hbook (hon _)) hR.violate

theorem commitFuel (hR : Pays reservation.agentId R) {actualCost : UInt64} :
    R s (s.commitFuel reservation actualCost).2 := by
  simp only [Supervisor.commitFuel]
  split
  · exact hR.trans (hR.handle s mild_fuel) (hR.recordSpend hR.refl)
  · exact hR.recordSpend hR.refl

theorem consumeFuelUnits (hR : Pays id R) : R s (s.consumeFuelUnits id reason units draw).2 := by
  have hreserve : R s (s.reserveFuel id units reason draw).2 := hR.reserveFuel
  unfold Supervisor.consumeFuelUnits
  split
  · next h => rwa [h] at hreserve
  next reservation s' h =>
  obtain rfl := reserveFuel_eq_ok h
  rw [h] at hreserve
  exact hR.trans hreserve (commitFuel hR)

theorem recordLlmSpend (hR : Pays id R) :
    R s (s.recordLlmSpend id model inputTokens outputTokens costUnits).2 := by
  unfold Supervisor.recordLlmSpend
  split
  · exact hR.refl s
  · split
    · exact hR.violate
    · exact hR.trans (hR.handle s mild_fuel) (hR.recordSpend fun s => hR.handle s mild_fuel)

theorem restoreFuelReport (hR : Pays id R) {report : FuelAuditReport} {fuel : UInt64} :
    R s (s.restoreFuelReport id report fuel).2 := by
  unfold Supervisor.restoreFuelReport
  split
  · exact hR.refl s
  · exact hR.trans (hR.handle s mild_fuel) (hR.ledger _ _)

end Pays

namespace Lives

theorem transition (hR : Lives id R) : R s (s.transitionAgentState id target).2 := by
  unfold transitionAgentState
  split
  · exact hR.refl s
  · split
    · exact hR.state s target
    · exact hR.refl s

theorem lifecycle (hR : Lives id R) (hdoes : Lifecycle id s answer) : R s answer.2 := by
  induction hdoes with
  | nothing s | refused s => exact hR.refl s
  | transition s target => exact hR.transition
  | consumed s reason units draw => exact hR.consumeFuelUnits
  | andThen s part next _ _ hpart hnext =>
    obtain ⟨result, s'⟩ := part
    cases result with
    | error => exact hpart
    | ok => exact hR.trans hpart (hnext s')

end Lives

namespace Moves

theorem registerAgent (hR : Moves id R) {manifest : AgentManifest} {initialState : AgentState}
    {audited : Bool × Bool} : R s (s.registerAgent id manifest initialState audited).2 := by
  simp only [Supervisor.registerAgent]
  split
  · exact hR.refl s
  next hfresh =>
  rw [not_isSome_iff_eq_none] at hfresh
  split
  · exact hR.refl s
  · split <;> exact hR.trans (hR.enters _ hfresh) (hR.ledger _ _)

/-- Every call makes only such changes, to the agent it is about. -/
theorem run (hR : Moves call.agent R) : R s (s.run call).2 := by
  cases call with
  | registerAgent => exact registerAgent hR
  | reserveFuel => exact hR.toPays.reserveFuel
  | commitFuel => exact hR.toPays.commitFuel
  | cancelFuel => exact hR.handle s mild_fuel
  | recordLlmSpend => exact hR.toPays.recordLlmSpend
  | transitionToRunning => exact hR.toLives.lifecycle (.transitionToRunning _)
  | stopAgent => exact hR.toLives.lifecycle (.stopAgent _)
  | restartAgent => exact hR.toLives.lifecycle (.restartAgent _ _)
  | pauseAgent => exact hR.toLives.lifecycle .pauseAgent
  | resumeAgent => exact hR.toLives.lifecycle .resumeAgent
  | restoreFuelReport => exact hR.toPays.restoreFuelReport

end Moves

/-- A call leaves every agent alone that it is not about. -/
theorem untouched_run (hne : other ≠ call.agent) : Untouched s (s.run call).2 other := by
  refine Moves.run (R := fun s s' => Untouched s s' other)
    { refl := fun s => .refl s other, trans := .trans, enters := ?_, handle := ?_, ledger := ?_,
      halts := ?_, state := ?_ }
  · exact fun s f _ => ⟨by simp [hne], rfl⟩
  · exact fun s l => ⟨rfl, by simp [hne]⟩
  · exact fun s f => ⟨rfl, by simp [hne]⟩
  · exact fun handle _ => ⟨by simp [hne], rfl⟩
  · exact fun s target => ⟨by simp [hne], rfl⟩

/-- An agent that is registered stays registered. -/
theorem registered_run (h : (s.agents.get? id).isSome) :
    ((s.run call).2.agents.get? id).isSome := by
  have hmodify : ∀ (s : Supervisor) (f : AgentHandle → AgentHandle), (s.agents.get? id).isSome →
      ((s.agents.modify call.agent f).get? id).isSome := by
    intro s f hs
    rw [Table.get?_modify]
    split
    · rwa [isSome_map]
    · exact hs
  have hmoves : Moves call.agent fun s s' =>
      (s.agents.get? id).isSome → (s'.agents.get? id).isSome := by
    refine { refl := fun s h => h, trans := fun h h' hs => h' (h hs), enters := ?_,
             handle := fun s f _ => hmodify s f, state := fun s _ => hmodify s _,
             ledger := fun s l h => h, halts := fun s f h => h }
    intro s handle _ hs
    rw [Table.get?_insert]
    split
    · rfl
    · exact hs
  exact hmoves.run h

end NexusOs.Fuel
