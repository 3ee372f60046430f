import NexusOs.Fuel.Accounts

/-!
# After a fuel violation

A violation takes an agent's fuel and autonomy. Earlier reservations are not part of that fuel, so
cancelling one, or committing it for less than it reserved, gives the agent fuel again
(`violation_not_final`). Nothing else does: read `violation_is_final` first.
-/

namespace NexusOs.Fuel

open Utf8 Bool Supervisor

/-- What `apply_fuel_violation` leaves of an agent. -/
structure Closed (handle : AgentHandle) : Prop where
  remainingFuel : handle.remainingFuel = 0
  autonomyLevel : handle.autonomyLevel = 0
  autonomyGuard : handle.autonomyGuard = .l0

/-- The account is closed if `violated`. -/
def Shut (violated : Prop) : AccountProp := fun handle _ => violated → Closed handle

variable {s : Supervisor} {id : AgentId} {violated : Prop}

/-- A closed account pays nothing but zero. -/
theorem Closed.pays {handle : AgentHandle} (h : Closed handle) {units : UInt64}
    (hle : units ≤ handle.remainingFuel) :
    Closed { handle with remainingFuel := handle.remainingFuel - units } := by
  have hzero : handle.remainingFuel - units = 0 := by
    rw [h.remainingFuel, UInt64.le_iff_toNat_le, UInt64.toNat_zero, Nat.le_zero] at hle
    rw [h.remainingFuel, UInt64.toNat_inj.mp (hle.trans UInt64.toNat_zero.symm)]
    rfl
  exact ⟨hzero, h.autonomyLevel, h.autonomyGuard⟩

theorem paying_shut (violated : Prop) :
    Paying fun violation => Shut (violated ∨ violation = true) where
  state _ h hv := ⟨(h hv).remainingFuel, (h hv).autonomyLevel, (h hv).autonomyGuard⟩
  missing h hle hv := (h hv).pays hle
  pays _ _ _ h hle hv := (h hv).pays hle
  violates _ _ _ _ := ⟨rfl, rfl, rfl⟩

/-! ## Calls -/

/-- The fuel that a call gives back to the agent it is about. -/
def Call.givesBack : Call → UInt64
  | .commitFuel reservation actualCost => saturatingSub reservation.reservedAmount actualCost
  | .cancelFuel reservation => reservation.reservedAmount
  | _ => 0

/-- The call is `restore_fuel_report`. -/
def Call.isRestore : Call → Bool
  | .restoreFuelReport .. => true
  | _ => false

/-- A commit that gives nothing back leaves a closed account closed. -/
theorem Holds.commit_shut {reservation : SupervisorFuelReservation} {actualCost : UInt64}
    (h : Holds s reservation.agentId (Shut violated))
    (hgives : violated → saturatingSub reservation.reservedAmount actualCost = 0) :
    Holds (s.commitFuel reservation actualCost).2 reservation.agentId
      (Shut (violated ∨ isViolation (s.commitFuel reservation actualCost).1 = true)) := by
  obtain ⟨refund, hrefund⟩ :
      ∃ refund, saturatingSub reservation.reservedAmount actualCost = refund := ⟨_, rfl⟩
  simp only [commitFuel, hrefund]
  rw [hrefund] at hgives
  have hgiven : Holds (if 0 < refund then s.setFuel reservation.agentId (· + refund) else s)
      reservation.agentId (Shut violated) := by
    split
    · next hpos =>
      refine h.setFuel fun handle l _ hv => ?_
      rw [hgives hv] at hpos
      cases hpos
    · exact h
  refine hgiven.recordSpend (Q := fun b => Shut (violated ∨ b = true)) ?_ ?_ (fun s hs => hs) ?_
  · intro handle hP hv
    exact hP (hv.resolve_right false_ne_true)
  · intro handle l hP hv
    exact hP (hv.resolve_right false_ne_true)
  · intro handle l _ _
    exact ⟨rfl, rfl, rfl⟩

/-- A call closes the account it is about if it applies a violation, and leaves it closed if it
gives nothing back. -/
theorem Holds.run_shut {call : Call} (hagent : (s.agents.get? call.agent).isSome)
    (h : Holds s call.agent (Shut violated)) (hgives : violated → call.givesBack = 0)
    (hrestore : violated → call.isRestore = false) :
    Holds (s.run call).2 call.agent (Shut (violated ∨ isViolation (s.run call).1 = true)) := by
  have hfalse : Holds s call.agent (Shut (violated ∨ false = true)) :=
    h.mono fun _ _ hP hv => hP (hv.resolve_right false_ne_true)
  cases call with
  | registerAgent id manifest initialState audited =>
    have hregistered : (s.agents.get? id).isSome := hagent
    simp only [Supervisor.run, Supervisor.registerAgent, if_pos hregistered]
    exact hfalse
  | reserveFuel id maxCost actionType draw =>
    simp only [Supervisor.run, isViolation_made] at hfalse ⊢
    refine hfalse.reserveFuel (Q := fun b => Shut (violated ∨ b = true)) ?_ ?_
    · intro handle l hP hle hv
      exact (hP hv).pays hle
    · intro handle l _ _ _
      exact ⟨rfl, rfl, rfl⟩
  | commitFuel reservation actualCost =>
    simp only [Supervisor.run, isViolation_made] at h ⊢
    exact h.commit_shut hgives
  | cancelFuel reservation =>
    simp only [Call.givesBack] at h hgives ⊢
    refine h.setFuel fun handle l hP hv => ?_
    have hv := hv.resolve_right false_ne_true
    refine ⟨?_, (hP hv).autonomyLevel, (hP hv).autonomyGuard⟩
    simp only [hgives hv, (hP hv).remainingFuel]
    rfl
  | restoreFuelReport id report fuel =>
    rintro handle - (hv | hv)
    · cases hrestore hv
    · simp only [Supervisor.run, Supervisor.restoreFuelReport] at hv
      split at hv <;> cases hv
  | _ => exact .run (paying_shut violated) hfalse rfl

/-! ## Sequences of calls -/

/-- The supervisor after calls. -/
def Supervisor.after (s : Supervisor) (calls : List Call) : Supervisor :=
  calls.foldl (fun s call => (s.run call).2) s

theorem registered_after {calls : List Call} (h : (s.agents.get? id).isSome) :
    ((s.after calls).agents.get? id).isSome := by
  induction calls generalizing s with
  | nil => exact h
  | cons call calls ih => exact ih (registered_run h)

/-- A closed account stays closed while nothing is given back to it. -/
theorem closed_after {calls : List Call} (hagent : (s.agents.get? id).isSome)
    (h : Holds s id (Shut True))
    (hcalls : ∀ call ∈ calls, call.agent = id → call.givesBack = 0 ∧ call.isRestore = false) :
    Holds (s.after calls) id (Shut True) := by
  induction calls generalizing s with
  | nil => exact h
  | cons call calls ih =>
    refine ih (registered_run hagent) ?_ fun c hc => hcalls c (by simp [hc])
    by_cases hid : id = call.agent
    · subst hid
      obtain ⟨hgives, hrestore⟩ := hcalls call (by simp) rfl
      exact (h.run_shut hagent (fun _ => hgives) fun _ => hrestore).mono
        fun _ _ hP _ => hP (.inl trivial)
    · exact h.of_untouched (untouched_run hid)

theorem reserveFuel_closed (h : Holds s id (Shut True)) {maxCost : UInt64} (hpos : 0 < maxCost)
    (actionType : Text) (draw : Nat) (r : SupervisorFuelReservation) :
    (s.reserveFuel id maxCost actionType draw).1 ≠ .ok r := by
  intro hok
  obtain ⟨handle, hhandle, hle⟩ :=
    fits_of_reserveFuel (show s.reserveFuel id maxCost actionType draw = (.ok r, _) from
      Prod.ext hok rfl)
  rw [(h handle hhandle trivial).remainingFuel] at hle
  exact absurd hpos (UInt64.not_lt.mpr hle)

theorem recordLlmSpend_closed (h : Holds s id (Shut True)) {costUnits : UInt64}
    (hpos : 0 < costUnits) (model : Text) (inputTokens outputTokens : UInt32) :
    (s.recordLlmSpend id model inputTokens outputTokens costUnits).1 ≠ .ok () := by
  intro hok
  cases hagent : s.agents.get? id with
  | none =>
    simp only [recordLlmSpend, hagent] at hok
    cases hok
  | some handle =>
    have hle := fits_of_recordLlmSpend hagent
      (show s.recordLlmSpend id model inputTokens outputTokens costUnits = (.ok (), _) from
        Prod.ext hok rfl)
    rw [(h handle hagent trivial).remainingFuel] at hle
    exact absurd hpos (UInt64.not_lt.mpr hle)

/-- A violation is final as long as no reservation of the agent is cancelled or committed with
something to give back: the agent has no fuel and no autonomy, and can neither reserve nor spend. -/
theorem violation_is_final {call : Call} {calls : List Call}
    (hagent : (s.agents.get? call.agent).isSome) (hviolation : isViolation (s.run call).1 = true)
    (hcalls : ∀ c ∈ calls, c.agent = call.agent → c.givesBack = 0 ∧ c.isRestore = false) :
    (∃ handle, (((s.run call).2).after calls).agents.get? call.agent = some handle ∧
      handle.remainingFuel = 0 ∧ handle.autonomyLevel = 0) ∧
    (∀ maxCost actionType draw r, 0 < maxCost →
      ((((s.run call).2).after calls).reserveFuel call.agent maxCost actionType draw).1 ≠ .ok r) ∧
    (∀ model inputTokens outputTokens costUnits, 0 < costUnits →
      ((((s.run call).2).after calls).recordLlmSpend call.agent model inputTokens outputTokens
        costUnits).1 ≠ .ok ()) := by
  have hshut : Holds (s.run call).2 call.agent (Shut True) := by
    have hstart : Holds s call.agent (Shut False) := fun _ _ hfalse => hfalse.elim
    exact (hstart.run_shut hagent False.elim False.elim).mono fun _ _ hP _ => hP (.inr hviolation)
  have hafter := closed_after (registered_run hagent) hshut hcalls
  have hthere : ((((s.run call).2).after calls).agents.get? call.agent).isSome :=
    registered_after (registered_run hagent)
  obtain ⟨handle, hhandle⟩ := Option.isSome_iff_exists.mp hthere
  have hclosed := hafter handle hhandle trivial
  refine ⟨⟨handle, hhandle, hclosed.remainingFuel, hclosed.autonomyLevel⟩, ?_, ?_⟩
  · intro maxCost actionType draw r hpos
    exact reserveFuel_closed hafter hpos actionType draw r
  · intro model inputTokens outputTokens costUnits hpos
    exact recordLlmSpend_closed hafter hpos model inputTokens outputTokens

/-- A supervisor with one agent of ten units, five of them reserved. -/
def halfReserved : Supervisor :=
  after {}
    [.registerAgent 7 ⟨"a", 10, some 3, none, none, none, []⟩ .created (true, true),
      .reserveFuel 7 5 "x" 0]

/-- The agent asks for more than it has, and then for more again. -/
theorem violation_is_final_halfReserved :
    ∃ handle, ((halfReserved.run (.reserveFuel 7 100 "y" 1)).2.after
        [.cancelFuel ⟨2, 8, 5, "z"⟩, .reserveFuel 7 0 "z" 3]).agents.get? 7 =
          some handle ∧ handle.remainingFuel = 0 ∧ handle.autonomyLevel = 0 :=
  (@violation_is_final halfReserved (.reserveFuel 7 100 "y" 1)
    [.cancelFuel ⟨2, 8, 5, "z"⟩, .reserveFuel 7 0 "z" 3] rfl rfl (by decide)).1

/-- The earlier reservation is cancelled after the violation: the agent has five units again, and
can reserve them. -/
theorem violation_not_final :
    ¬ ∀ (s : Supervisor) (call : Call) (calls : List Call) (handle : AgentHandle),
      (s.agents.get? call.agent).isSome → isViolation (s.run call).1 = true →
      (∀ c ∈ calls, c.isRestore = false) →
      (((s.run call).2).after calls).agents.get? call.agent = some handle →
      handle.remainingFuel = 0 := by
  intro h
  have := h halfReserved (.reserveFuel 7 100 "y" 1) [.cancelFuel ⟨0, 7, 5, "x"⟩] _
    rfl rfl (by decide) rfl
  revert this
  decide

/-- Calls about other agents, in any number and order, leave an agent's account and what it may
reserve and spend. -/
theorem agents_are_isolated {calls : List Call} (hcalls : ∀ c ∈ calls, id ≠ c.agent) :
    Untouched s (s.after calls) id ∧
    (∀ cost action draw, ((s.after calls).reserveFuel id cost action draw).1 =
      (s.reserveFuel id cost action draw).1) ∧
    ∀ model input output cost, ((s.after calls).recordLlmSpend id model input output cost).1 =
      (s.recordLlmSpend id model input output cost).1 := by
  have hsame : Untouched s (s.after calls) id := by
    induction calls generalizing s with
    | nil => exact .refl s id
    | cons call calls ih =>
      rw [List.forall_mem_cons] at hcalls
      exact (untouched_run hcalls.1).trans (ih hcalls.2)
  refine ⟨hsame, fun _ _ _ => ?_, fun _ _ _ _ => ?_⟩ <;>
    simp only [reserveFuel, recordLlmSpend, recordSpend,
      setFuel, hsame.1, hsame.2]
  all_goals
    repeat' split
    all_goals rfl

/-- Another agent's reservation is cancelled. -/
theorem agents_are_isolated_halfReserved :
    Untouched halfReserved (halfReserved.after [.cancelFuel ⟨2, 8, 5, "z"⟩]) 7 :=
  (agents_are_isolated (by decide)).1

end NexusOs.Fuel
