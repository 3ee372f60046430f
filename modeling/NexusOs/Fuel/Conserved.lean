import NexusOs.Fuel.Accounts
import NexusOs.Lib.Transition

/-!
# Fuel is conserved

Every sequence of calls of a supervisor, over any number of agents, where a reservation is committed
or cancelled by its holder, once and for no more than it reserved. What is left of an agent's fuel,
what is reserved and what its ledger says was spent add up to the monthly cap, until a violation
writes the rest off. Read `fuel_is_conserved` first.
-/

namespace NexusOs.Fuel

open Transition Utf8 List AgentFuelLedger

/-! ## Reservations that are held -/

variable {r : SupervisorFuelReservation} {units : UInt64} {manifest : AgentManifest}

/-- A supervisor, and the reservations held by its callers. -/
structure World where
  supervisor : Supervisor
  held : List SupervisorFuelReservation

/-- A call and its answer. -/
structure Event where
  call : Call
  answer : Except AgentError (Option SupervisorFuelReservation)

/-- The reservations held after an event; `none` if it uses up more than is held. -/
def heldAfter (held : List SupervisorFuelReservation) :
    Event → Option (List SupervisorFuelReservation)
  | ⟨.reserveFuel .., .ok (some reservation)⟩ => some (reservation :: held)
  | ⟨.commitFuel reservation actualCost, _⟩ =>
    if reservation ∈ held ∧ actualCost ≤ reservation.reservedAmount then
      some (held.erase reservation)
    else none
  | ⟨.cancelFuel reservation, _⟩ =>
    if reservation ∈ held then some (held.erase reservation) else none
  | _ => some held

/-- One call. -/
def Step (w : World) (e : Event) (w' : World) : Prop :=
  w.supervisor.run e.call = (e.answer, w'.supervisor) ∧ heldAfter w.held e = some w'.held

/-- The units that are reserved for an agent. -/
def heldBy (held : List SupervisorFuelReservation) (id : AgentId) : Nat :=
  ((held.filter fun r => r.agentId = id).map fun r => r.reservedAmount.toNat).sum

/-- The event applied a fuel violation to the agent. -/
def Event.violates (e : Event) (id : AgentId) : Bool := e.call.agent = id && isViolation e.answer

/-- The event restored the report of the agent. -/
def Event.restores (e : Event) (id : AgentId) : Bool :=
  match e.call with
  | .restoreFuelReport id' _ _ => id' = id
  | _ => false

theorem heldBy_cons (r : SupervisorFuelReservation) (held : List SupervisorFuelReservation)
    (id : AgentId) :
    heldBy (r :: held) id =
      (if r.agentId = id then r.reservedAmount.toNat else 0) + heldBy held id := by
  by_cases h : r.agentId = id <;> simp [heldBy, h]

theorem heldBy_erase {held : List SupervisorFuelReservation} (hmem : r ∈ held) (id : AgentId) :
    (if r.agentId = id then r.reservedAmount.toNat else 0) + heldBy (held.erase r) id =
      heldBy held id := by
  rw [← heldBy_cons]
  exact (((perm_cons_erase hmem).filter _).map _).sum_nat.symm

theorem le_heldBy {held : List SupervisorFuelReservation} (hmem : r ∈ held) :
    r.reservedAmount.toNat ≤ heldBy held r.agentId := by
  have := heldBy_erase hmem r.agentId
  rw [if_pos rfl] at this
  omega

/-! ## A balanced account -/

theorem AgentFuelLedger.judge_modelBreakdown (l : AgentFuelLedger) (costUnits : UInt64) :
    (l.judge costUnits).2.modelBreakdown = l.modelBreakdown := by
  unfold judge
  split
  split
  · rfl
  · split <;> rfl

/-- A spend adds its units to those of its model, if they are in range. -/
theorem AgentFuelLedger.unitsByModel_recordLlmSpend {l : AgentFuelLedger}
    (h : l.unitsByModel + units.toNat < 2 ^ 64) (model : Text) (inputTokens outputTokens : UInt32) :
    (l.recordLlmSpend model inputTokens outputTokens units).2.unitsByModel =
      l.unitsByModel + units.toNat := by
  obtain ⟨entry, hentry⟩ : ∃ entry, (l.modelBreakdown.get? model).getD {} = entry := ⟨_, rfl⟩
  have hold : ((l.modelBreakdown.get? model).map fun e => e.spentUnits.toNat).getD 0 =
      entry.spentUnits.toNat := by
    rw [← hentry]
    cases l.modelBreakdown.get? model <;> rfl
  have hle : entry.spentUnits.toNat ≤ l.unitsByModel := by
    have := Table.sum_erase (t := l.modelBreakdown) (k := model) (w := fun e => e.spentUnits.toNat)
    simp only [unitsByModel]
    omega
  have hadd : (saturatingAdd entry.spentUnits units).toNat =
      entry.spentUnits.toNat + units.toNat := toNat_saturatingAdd_of_lt (by omega)
  have hinsert := Table.sum_insert (t := l.modelBreakdown) (k := model)
    (v := entry.add inputTokens outputTokens units) (w := fun e => e.spentUnits.toNat)
  simp only [ModelSpend.add] at hinsert
  simp only [unitsByModel, recordLlmSpend, hentry,
    judge_modelBreakdown]
  simp only [ModelSpend.add]
  omega

/-- An account with `held` units reserved: it never holds more than its cap, and while it is clean,
nothing is lost. -/
structure Balanced (clean : Prop) (held : Nat) (handle : AgentHandle) (l : AgentFuelLedger) :
    Prop where
  within : handle.remainingFuel.toNat + held ≤ handle.manifest.monthlyCap.toNat
  cap : handle.manifest.monthlyCap ≤ l.budget.capUnits
  balance : clean → handle.remainingFuel.toNat + held + l.budget.spentUnits.toNat =
    handle.manifest.monthlyCap.toNat
  models : clean → l.unitsByModel = l.budget.spentUnits.toNat

namespace Balanced

variable {clean clean' : Prop} {held : Nat} {handle handle' : AgentHandle} {l l' : AgentFuelLedger}

theorem mono (h : Balanced clean held handle l) (hclean : clean' → clean) :
    Balanced clean' held handle l :=
  ⟨h.within, h.cap, fun hc => h.balance (hclean hc), fun hc => h.models (hclean hc)⟩

theorem new (hhandle : handle.manifest = manifest)
    (hfuel : handle.remainingFuel = manifest.monthlyCap) :
    Balanced clean 0 handle (.new manifest.monthlyCap) := by
  subst hhandle
  refine ⟨by rw [hfuel]; simp, ?_, fun _ => by rw [hfuel]; simp [new,
    MonthlyBudget.new], fun _ => rfl⟩
  simp only [new, MonthlyBudget.new]
  split
  · next hlt => exact UInt64.le_of_lt hlt
  · exact UInt64.le_refl _

/-- Units taken from the fuel are held. -/
theorem take (h : Balanced clean held handle l) (hle : units ≤ handle.remainingFuel) :
    Balanced clean (held + units.toNat)
      { handle with remainingFuel := handle.remainingFuel - units } l := by
  have hsub := UInt64.toNat_sub_of_le _ _ hle
  have hle := UInt64.le_iff_toNat_le.mp hle
  have hwithin := h.within
  refine ⟨?_, h.cap, fun hc => ?_, h.models⟩
  · simp only [hsub]
    omega
  · have := h.balance hc
    simp only [hsub]
    omega

/-- Held units are given back to the fuel, without an overflow. -/
theorem giveBack (h : Balanced clean (held + units.toNat) handle l) :
    Balanced clean held { handle with remainingFuel := handle.remainingFuel + units } l := by
  have hwithin := h.within
  have hcap := handle.manifest.monthlyCap.toNat_lt
  have hadd : (handle.remainingFuel + units).toNat = handle.remainingFuel.toNat + units.toNat :=
    toNat_add_of_lt (by omega)
  refine ⟨?_, h.cap, fun hc => ?_, h.models⟩
  · simp only [hadd]
    omega
  · have := h.balance hc
    simp only [hadd]
    omega

/-- Held units are booked in the ledger, without reaching a limit while the account is clean. -/
theorem spend (h : Balanced clean (held + units.toNat) handle l) (model : Text)
    (inputTokens outputTokens : UInt32) :
    Balanced clean held handle (l.recordLlmSpend model inputTokens outputTokens units).2 := by
  have hbudget := l.recordLlmSpend_budget model inputTokens outputTokens units
  have hwithin := h.within
  have hcap := handle.manifest.monthlyCap.toNat_lt
  have hspent : clean → (saturatingAdd l.budget.spentUnits units).toNat =
      l.budget.spentUnits.toNat + units.toNat := by
    intro hc
    have := h.balance hc
    exact toNat_saturatingAdd_of_lt (by omega)
  refine ⟨by omega, ?_, fun hc => ?_, fun hc => ?_⟩
  · rw [hbudget]
    exact h.cap
  · have := h.balance hc
    rw [hbudget]
    simp only [MonthlyBudget.recordSpend, hspent hc]
    omega
  · have hmodels := h.models hc
    have hbalance := h.balance hc
    rw [hbudget]
    simp only [MonthlyBudget.recordSpend, hspent hc]
    rw [unitsByModel_recordLlmSpend (by omega), hmodels]

theorem violate (h : Balanced clean held handle l) (hmanifest : handle'.manifest = handle.manifest)
    (hcap : l'.budget.capUnits = l.budget.capUnits) (hdirty : ¬ clean') :
    Balanced clean' held handle'.violate l' := by
  have hwithin := h.within
  refine ⟨?_, ?_, fun hc => absurd hc hdirty, fun hc => absurd hc hdirty⟩
  · simp only [AgentHandle.violate, hmanifest, UInt64.toNat_zero]
    omega
  · simp only [AgentHandle.violate, hmanifest, hcap]
    exact h.cap

end Balanced

/-- A balanced account, with its ledger. -/
def Account (clean : Prop) (held : Nat) : AccountProp := fun handle ledger =>
  ∃ l, ledger = some l ∧ Balanced clean held handle l

namespace Account

variable {clean clean' : Prop} {held held' : Nat} {handle handle' : AgentHandle}
  {ledger ledger' : Option AgentFuelLedger}

/-- A change that is not about the ledger. -/
theorem change (h : Account clean held handle ledger)
    (hchange : ∀ l, Balanced clean held handle l → Balanced clean' held' handle' l) :
    Account clean' held' handle' ledger := by
  obtain ⟨l, rfl, hl⟩ := h
  exact ⟨l, rfl, hchange l hl⟩

theorem mono (h : Account clean held handle ledger) (hclean : clean' → clean) :
    Account clean' held handle ledger :=
  h.change fun _ hl => hl.mono hclean

theorem violate (h : Account clean held handle ledger)
    (hmanifest : handle'.manifest = handle.manifest)
    (hcap : ledger'.map (fun l => l.budget.capUnits) = ledger.map fun l => l.budget.capUnits)
    (hdirty : ¬ clean') : Account clean' held handle'.violate ledger' := by
  obtain ⟨l, rfl, hl⟩ := h
  obtain ⟨l', rfl, hl'⟩ := Option.map_eq_some_iff.mp hcap
  exact ⟨l', rfl, hl.violate hmanifest hl' hdirty⟩

end Account

/-- The accounts of an agent, while and after it is clean. -/
theorem paying_account (clean : Prop) (held : Nat) :
    Paying fun violated => Account (clean ∧ violated = false) held where
  state _ h := h.change fun _ hl => ⟨hl.within, hl.cap, hl.balance, hl.models⟩
  missing h _ := by
    obtain ⟨l, hnone, -⟩ := h
    cases hnone
  pays model inputTokens outputTokens h hle := by
    obtain ⟨l, hsome, hl⟩ := h
    cases hsome
    exact ⟨_, rfl, (hl.take hle).spend model inputTokens outputTokens⟩
  violates h hmanifest hcap := h.violate hmanifest hcap (by simp)

/-! ## Every call keeps accounts balanced -/

/-- Only agents that are registered have reservations. -/
def Known (w : World) : Prop := ∀ r ∈ w.held, (w.supervisor.agents.get? r.agentId).isSome

variable {w w' : World} {e : Event} {id : AgentId} {s s' : Supervisor}

theorem heldBy_eq_zero (h : Known w) (hnone : w.supervisor.agents.get? id = none) :
    heldBy w.held id = 0 := by
  have hfilter : w.held.filter (fun r => r.agentId = id) = [] := by
    rw [filter_eq_nil_iff]
    intro r hr hid
    have := h r hr
    rw [of_decide_eq_true hid, hnone] at this
    cases this
  rw [heldBy, hfilter]
  rfl

/-- A reservation that a call makes is for the registered agent it is about. -/
theorem reserved_of_step (h : Step w e w') :
    w'.held = w.held ∨
      (∃ r, r.agentId = e.call.agent ∧ (w.supervisor.agents.get? r.agentId).isSome ∧
        w'.held = r :: w.held) ∨
      ∃ r ∈ w.held, r.agentId = e.call.agent ∧ w'.held = w.held.erase r := by
  obtain ⟨call, answer⟩ := e
  obtain ⟨supervisor', held'⟩ := w'
  obtain ⟨hrun, hheld⟩ := h
  unfold heldAfter at hheld
  split at hheld
  · next id maxCost actionType draw r heq =>
    cases heq
    cases hheld
    have hreserve := eq_ok_of_made hrun
    obtain ⟨handle, hhandle, -⟩ := fits_of_reserveFuel hreserve
    obtain rfl := reserveFuel_eq_ok hreserve
    exact .inr (.inl ⟨_, rfl, by simp [hhandle], rfl⟩)
  · next r actualCost _ heq =>
    cases heq
    split at hheld
    · next hmem => exact .inr (.inr ⟨r, hmem.1, rfl, (Option.some.inj hheld).symm⟩)
    · cases hheld
  · next r _ heq =>
    cases heq
    split at hheld
    · next hmem => exact .inr (.inr ⟨r, hmem, rfl, (Option.some.inj hheld).symm⟩)
    · cases hheld
  · exact .inl (Option.some.inj hheld).symm

theorem Step.known (hstep : Step w e w') (h : Known w) : Known w' := by
  have hstays : ∀ {id}, (w.supervisor.agents.get? id).isSome →
      (w'.supervisor.agents.get? id).isSome := by
    intro id hid
    have : ((w.supervisor.run e.call).2.agents.get? id).isSome := registered_run hid
    rwa [hstep.1] at this
  intro r hr
  rcases reserved_of_step hstep with hheld | ⟨r', -, hknown, hheld⟩ | ⟨r', -, -, hheld⟩
  · exact hstays (h r (hheld ▸ hr))
  · rw [hheld, mem_cons] at hr
    rcases hr with rfl | hr
    · exact hstays hknown
    · exact hstays (h r hr)
  · exact hstays (h r (mem_of_mem_erase (hheld ▸ hr)))

/-- What is held for an agent changes only by calls about it. -/
theorem heldBy_of_step (hstep : Step w e w') (hne : id ≠ e.call.agent) :
    heldBy w'.held id = heldBy w.held id := by
  rcases reserved_of_step hstep with hheld | ⟨r, hagent, -, hheld⟩ | ⟨r, hmem, hagent, hheld⟩
  · rw [hheld]
  · rw [hheld, heldBy_cons, if_neg (hagent ▸ hne.symm), Nat.zero_add]
  · rw [hheld, ← heldBy_erase hmem id, if_neg (hagent ▸ hne.symm), Nat.zero_add]

variable {clean : Prop} {held : Nat}

theorem Holds.reserve_balanced (h : Holds s id (Account clean held)) (maxCost : UInt64)
    (actionType : Text) (draw : Nat) :
    Holds (s.reserveFuel id maxCost actionType draw).2 id
      (Account (clean ∧ isViolation (s.reserveFuel id maxCost actionType draw).1 = false)
        (bif isViolation (s.reserveFuel id maxCost actionType draw).1 then held
          else held + maxCost.toNat)) := by
  refine h.reserveFuel (Q := fun b => Account (clean ∧ b = false)
    (bif b then held else held + maxCost.toNat)) ?_ ?_
  · intro handle l hP hle
    exact hP.change fun _ hl => (hl.take hle).mono And.left
  · intro handle l hP _
    exact hP.violate rfl (by cases l <;> rfl) (by simp)

/-- A commit books its cost, and gives back the rest of what was reserved. -/
theorem Holds.commit_balanced {reservation : SupervisorFuelReservation} {actualCost : UInt64}
    (h : Holds s reservation.agentId (Account clean (held + reservation.reservedAmount.toNat)))
    (hle : actualCost ≤ reservation.reservedAmount) :
    Holds (s.commitFuel reservation actualCost).2 reservation.agentId
      (Account (clean ∧ isViolation (s.commitFuel reservation actualCost).1 = false) held) := by
  obtain ⟨refund, hrefund⟩ :
      ∃ refund, saturatingSub reservation.reservedAmount actualCost = refund := ⟨_, rfl⟩
  have hnat : reservation.reservedAmount.toNat = actualCost.toNat + refund.toNat := by
    have := UInt64.le_iff_toNat_le.mp hle
    rw [← hrefund, toNat_saturatingSub]
    omega
  rw [hnat, ← Nat.add_assoc] at h
  have hgiven : Holds (if 0 < refund then s.setFuel reservation.agentId (· + refund) else s)
      reservation.agentId (Account clean (held + actualCost.toNat)) := by
    split
    · exact h.setFuel fun _ _ hP => hP.change fun _ hl => hl.giveBack
    next hzero =>
    have : refund.toNat = 0 := by
      rw [UInt64.lt_iff_toNat_lt, UInt64.toNat_zero] at hzero
      omega
    rwa [this] at h
  simp only [Supervisor.commitFuel, hrefund]
  refine hgiven.recordSpend (Q := fun b => Account (clean ∧ b = false) held) ?_ ?_
    (fun s hs => hs) ?_
  · rintro handle ⟨l, hnone, -⟩
    cases hnone
  · rintro handle l ⟨_, hsome, hl⟩
    cases hsome
    exact ⟨_, rfl, (hl.spend _ 0 _).mono And.left⟩
  · rintro handle _ ⟨l, ⟨_, hsome, hl⟩, rfl⟩
    cases hsome
    exact ⟨_, rfl, (hl.spend _ 0 _).violate rfl rfl (by simp)⟩

theorem Holds.register_balanced (hnone : s.agents.get? id = none → held = 0)
    (h : Holds s id (Account clean held)) {initialState : AgentState} {audited : Bool × Bool} :
    Holds (s.registerAgent id manifest initialState audited).2 id (Account clean held) := by
  simp only [Supervisor.registerAgent]
  split
  · exact h
  next hfresh =>
  rw [Option.not_isSome_iff_eq_none] at hfresh
  obtain rfl := hnone hfresh
  split
  · exact h
  split
  all_goals
    intro handle hhandle
    rw [Table.get?_insert, if_pos rfl] at hhandle
    cases hhandle
    exact ⟨_, by rw [Table.get?_insert, if_pos rfl], .new rfl rfl⟩

/-- A call keeps the account it is about balanced. -/
theorem Holds.run_balanced {call : Call} {before after : List SupervisorFuelReservation}
    (hheld : heldAfter before ⟨call, (s.run call).1⟩ = some after)
    (hnone : s.agents.get? call.agent = none → heldBy before call.agent = 0)
    (hrestores : ∀ id report fuel, call ≠ .restoreFuelReport id report fuel)
    (h : Holds s call.agent (Account clean (heldBy before call.agent))) :
    Holds (s.run call).2 call.agent
      (Account (clean ∧ isViolation (s.run call).1 = false) (heldBy after call.agent)) := by
  have hclean : Holds s call.agent (Account (clean ∧ false = false) (heldBy before call.agent)) :=
    h.mono fun _ _ hP => hP.mono And.left
  have hpays : call.pays = true → after = before →
      Holds (s.run call).2 call.agent
        (Account (clean ∧ isViolation (s.run call).1 = false) (heldBy after call.agent)) := by
    rintro hpays rfl
    exact .run (paying_account clean _) hclean hpays
  cases call with
  | registerAgent id manifest initialState audited =>
    cases hheld
    have hregister : Holds (s.registerAgent id manifest initialState audited).2 id
        (Account clean (heldBy before id)) := h.register_balanced hnone
    exact hregister.mono fun _ _ hP => hP.mono And.left
  | reserveFuel id maxCost actionType draw =>
    simp only [Supervisor.run, isViolation_made, Call.agent] at h hheld ⊢
    have hreserve := h.reserve_balanced maxCost actionType draw
    rcases hresult : s.reserveFuel id maxCost actionType draw with ⟨result, s'⟩
    rw [hresult] at hreserve hheld
    cases result with
    | ok r =>
      cases hheld
      obtain rfl := reserveFuel_eq_ok hresult
      rw [heldBy_cons, if_pos rfl, Nat.add_comm]
      exact hreserve
    | error error =>
      cases hheld
      rcases reserveFuel_eq_error hresult with hviolation | ⟨hviolation, rfl⟩
      · simpa [isViolation, hviolation] using hreserve
      · simpa [isViolation, hviolation] using h
  | commitFuel reservation actualCost =>
    simp only [heldAfter] at hheld
    split at hheld
    · next hmem =>
      cases hheld
      have hsum := heldBy_erase hmem.1 reservation.agentId
      rw [Nat.add_comm] at hsum
      simp only [Call.agent, ← hsum] at h
      simp only [Supervisor.run, isViolation_made]
      exact h.commit_balanced hmem.2
    · cases hheld
  | cancelFuel reservation =>
    simp only [heldAfter] at hheld
    split at hheld
    · next hmem =>
      cases hheld
      have hsum := heldBy_erase hmem reservation.agentId
      rw [Nat.add_comm] at hsum
      simp only [Call.agent, ← hsum] at h
      exact h.setFuel fun _ _ hP => hP.change fun _ hl => hl.giveBack.mono And.left
    · cases hheld
  | restoreFuelReport id report fuel => exact absurd rfl (hrestores id report fuel)
  | _ =>
    cases hheld
    exact hpays rfl rfl

/-- One call keeps every agent's account balanced, unless it restores its report. -/
theorem step_balanced (hstep : Step w e w') (hknown : Known w) (hrestores : e.restores id = false)
    (h : Holds w.supervisor id (Account clean (heldBy w.held id))) :
    Holds w'.supervisor id (Account (clean ∧ e.violates id = false) (heldBy w'.held id)) := by
  by_cases hid : id = e.call.agent
  · subst hid
    have hheld : heldAfter w.held ⟨e.call, (w.supervisor.run e.call).1⟩ = some w'.held := by
      rw [hstep.1]
      exact hstep.2
    have hafter := h.run_balanced hheld (heldBy_eq_zero hknown) (by
      intro id report fuel hcall
      simp [Event.restores, hcall, Call.agent] at hrestores)
    rw [hstep.1] at hafter
    simpa [Event.violates] using hafter
  · rw [heldBy_of_step hstep hid]
    have hsame : Untouched w.supervisor (w.supervisor.run e.call).2 id := untouched_run hid
    rw [hstep.1] at hsame
    exact (h.of_untouched hsame).mono fun _ _ hP => hP.mono And.left

/-- Along a run, an agent's account stays balanced unless its report is restored. -/
theorem run_balanced {events : List Event} (hrun : Run Step w events w') (hknown : Known w)
    (hrestores : ∀ e ∈ events, e.restores id = false)
    (h : Holds w.supervisor id (Account clean (heldBy w.held id))) :
    Holds w'.supervisor id
      (Account (clean ∧ ∀ e ∈ events, e.violates id = false) (heldBy w'.held id)) := by
  induction hrun generalizing clean with
  | nil => exact h.mono fun _ _ hP => hP.mono And.left
  | @cons w w'' w' e events hstep _ ih =>
    have hafter := step_balanced hstep hknown (hrestores e (by simp)) h
    have := ih (hstep.known hknown) (fun e he => hrestores e (by simp [he])) hafter
    refine this.mono fun _ _ hP => hP.mono ?_
    rintro ⟨hclean, hall⟩
    exact ⟨⟨hclean, hall e (by simp)⟩, fun e' he' => hall e' (by simp [he'])⟩

/-! ## The law -/

/-- A supervisor without agents. -/
def World.initial (config : SupervisorConfig) : World := ⟨{ config }, []⟩

/-- Fuel is conserved. For an agent whose report was not restored no held reservation can overflow
its fuel and no payment underflow it; and without a violation, what is left, reserved and spent add
up to its cap, and the models share what was spent. -/
theorem fuel_is_conserved {config : SupervisorConfig} {events : List Event} {handle : AgentHandle}
    (hrun : Run Step (.initial config) events w)
    (hagent : w.supervisor.agents.get? id = some handle)
    (hrestores : ∀ e ∈ events, e.restores id = false) :
    ∃ l, w.supervisor.fuelLedgers.get? id = some l ∧
      (∀ r ∈ w.held, r.agentId = id →
        handle.remainingFuel.toNat + r.reservedAmount.toNat < 2 ^ 64) ∧
      (∀ maxCost actionType draw r s',
        w.supervisor.reserveFuel id maxCost actionType draw = (.ok r, s') →
        maxCost ≤ handle.remainingFuel) ∧
      (∀ model inputTokens outputTokens costUnits s',
        w.supervisor.recordLlmSpend id model inputTokens outputTokens costUnits = (.ok (), s') →
        costUnits ≤ handle.remainingFuel) ∧
      ((∀ e ∈ events, e.violates id = false) →
        handle.remainingFuel.toNat + heldBy w.held id + l.budget.spentUnits.toNat =
            handle.manifest.monthlyCap.toNat ∧
          l.unitsByModel = l.budget.spentUnits.toNat ∧
          l.budget.spentUnits ≤ handle.manifest.monthlyCap ∧
          l.budget.spentUnits ≤ l.budget.capUnits) := by
  have hstart : Holds (World.initial config).supervisor id
      (Account True (heldBy (World.initial config).held id)) := by
    intro handle hhandle
    cases hhandle
  have hknown : Known (.initial config) := by
    intro r hr
    cases hr
  obtain ⟨l, hl, hbalanced⟩ := run_balanced hrun hknown hrestores hstart handle hagent
  refine ⟨l, hl, ?_, ?_, ?_, ?_⟩
  · rintro r hr rfl
    have hle := le_heldBy hr
    have hwithin := hbalanced.within
    have hcap := handle.manifest.monthlyCap.toNat_lt
    omega
  · intro maxCost actionType draw r s' hreserve
    obtain ⟨handle', hhandle', hle⟩ := fits_of_reserveFuel hreserve
    obtain rfl := Option.some.inj (hagent.symm.trans hhandle')
    exact hle
  · intro model inputTokens outputTokens costUnits s' hspend
    exact fits_of_recordLlmSpend hagent hspend
  intro hclean
  have hbalance := hbalanced.balance ⟨trivial, hclean⟩
  have hspent : l.budget.spentUnits ≤ handle.manifest.monthlyCap := by
    rw [UInt64.le_iff_toNat_le]
    omega
  exact ⟨hbalance, hbalanced.models ⟨trivial, hclean⟩, hspent, UInt64.le_trans hspent hbalanced.cap⟩

/-- An agent with ten units. -/
def sampleManifest : AgentManifest := ⟨"a", 10, some 3, none, none, none, []⟩

/-- The agent reserves four units twice, commits one for three and holds the other. -/
def sampleEvents : List Event :=
  [⟨.registerAgent 7 sampleManifest .created (true, true), .ok none⟩,
    ⟨.reserveFuel 7 4 "x" 0, .ok (some ⟨0, 7, 4, "x"⟩)⟩,
    ⟨.reserveFuel 7 4 "y" 1, .ok (some ⟨1, 7, 4, "y"⟩)⟩,
    ⟨.commitFuel ⟨0, 7, 4, "x"⟩ 3, .ok none⟩]

/-- The world after the first of these events. -/
def sampleWorld (n : Nat) : World :=
  (sampleEvents.take n).foldl
    (fun w e => ⟨(w.supervisor.run e.call).2, (heldAfter w.held e).getD []⟩) (.initial {})

theorem fuel_is_conserved_of_sampleEvents :
    ∃ handle, ∃ l : AgentFuelLedger, (sampleWorld 4).supervisor.agents.get? 7 = some handle ∧
      handle.remainingFuel = 3 ∧ heldBy (sampleWorld 4).held 7 = 4 ∧
      handle.remainingFuel.toNat + heldBy (sampleWorld 4).held 7 + l.budget.spentUnits.toNat =
        handle.manifest.monthlyCap.toNat := by
  have h0 : Step (sampleWorld 0) (sampleEvents.get ⟨0, by decide⟩) (sampleWorld 1) := ⟨rfl, rfl⟩
  have h1 : Step (sampleWorld 1) (sampleEvents.get ⟨1, by decide⟩) (sampleWorld 2) := ⟨rfl, rfl⟩
  have h2 : Step (sampleWorld 2) (sampleEvents.get ⟨2, by decide⟩) (sampleWorld 3) := ⟨rfl, rfl⟩
  have h3 : Step (sampleWorld 3) (sampleEvents.get ⟨3, by decide⟩) (sampleWorld 4) :=
    ⟨rfl, by decide⟩
  have hrun : Run Step (.initial {}) sampleEvents (sampleWorld 4) :=
    .cons h0 (.cons h1 (.cons h2 (.cons h3 (.nil _))))
  obtain ⟨handle, hagent, hfuel⟩ : ∃ handle,
      (sampleWorld 4).supervisor.agents.get? 7 = some handle ∧ handle.remainingFuel = 3 :=
    ⟨_, rfl, rfl⟩
  obtain ⟨l, -, -, -, -, hclean⟩ := fuel_is_conserved hrun hagent (by decide)
  exact ⟨handle, l, hagent, hfuel, rfl, (hclean (by decide)).1⟩

end NexusOs.Fuel
