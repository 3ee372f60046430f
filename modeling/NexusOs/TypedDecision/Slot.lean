import Mathlib

/-!
# The assessment slot

The slot of the typed decision crate (`slot.rs`) admits one assessment. Its tokens carry the
slot's epoch and the binding the assessment began under; any step out of turn spends the slot for
good. Bindings and reasons are only compared and carried, so they are any types. A run is one of a
system of slots, each answering its own calls, with tokens that may be presented anywhere.
Read `admission_follows_assessment` first; `tokens_stay_private` says when a token is of no use to
a slot that did not issue it.
-/

namespace NexusOs.TypedDecision

variable {ι β ρ : Type}

/-- Which lane a slot serves. -/
inductive SlotKind where
  | sentinel | verifier | notes
  deriving DecidableEq

/-- Why a slot is spent. -/
inductive SpentReason (ρ : Type) where
  | repeated
  | restricted (reason : ρ)
  | invalidated | stale | unrecorded
  deriving DecidableEq

/-- The state of a slot. -/
inductive SlotState (β ρ : Type) where
  | unassessed | pending | settling
  | clear (binding : β)
  | spent (reason : SpentReason ρ)
  | awaitingAck (assessmentEpoch : Nat) (binding : β) (reason : ρ)
  | ackRecording (assessmentEpoch : Nat) (binding : β)
  | acknowledged (assessmentEpoch : Nat) (binding : β)
  | consumed
  deriving DecidableEq

/-- What an assessment settles as. -/
inductive Outcome (ρ : Type) where
  | clear
  | needsOwner (reason : ρ)

/-- Only a notes slot settles as `NeedsOwner`; for any other slot it is a restriction. -/
def Outcome.restriction (kind : SlotKind) : Outcome ρ → Option ρ
  | .clear => none
  | .needsOwner reason => if kind = .notes then none else some reason

/-- The one assessment a slot admits. -/
structure AssessmentToken (β : Type) where
  epoch : Nat
  binding : β

/-- What the first step of an acknowledgement hands to the last. -/
structure AckToken (β : Type) extends AssessmentToken β

/-- What the first step of a settlement hands to the second. -/
structure SettleToken (β ρ : Type) extends AssessmentToken β where
  outcome : Outcome ρ

/-- What the operations answer, refusals included. -/
inductive Reply (β ρ : Type) where
  | started (token : AssessmentToken β)
  | repeated
  | alreadySpent
  | spent (reason : SpentReason ρ)
  | settling (token : SettleToken β ρ)
  | clear
  | awaitingAck (assessmentEpoch : Nat)
  | recording (token : AckToken β)
  | acknowledged
  | admittedClear
  | admittedAcknowledged

/-- A slot: its state and its private epoch. -/
structure Slot (β ρ : Type) where
  kind : SlotKind
  state : SlotState β ρ
  epoch : Nat

variable [DecidableEq ι] [DecidableEq β] [DecidableEq ρ]

namespace Slot

/-- A fresh slot. -/
def new (kind : SlotKind) : Slot β ρ := ⟨kind, .unassessed, 0⟩

variable (slot : Slot β ρ)

/-- Spend the slot, one epoch on, unless it is spent. -/
def spend (reason : SpentReason ρ) : Slot β ρ × Reply β ρ :=
  match slot.state with
  | .spent _ => (slot, .alreadySpent)
  | _ => (⟨slot.kind, .spent reason, min (slot.epoch + 1) (2 ^ 32 - 1)⟩, .spent reason)

/-- Begin the assessment; a second begin spends the slot. -/
def begin (binding : β) : Slot β ρ × Reply β ρ :=
  match slot.state with
  | .unassessed =>
    let epoch := min (slot.epoch + 1) (2 ^ 32 - 1)
    (⟨slot.kind, .pending, epoch⟩, .started ⟨epoch, binding⟩)
  | .spent _ => (slot, .alreadySpent)
  | _ => ((slot.spend .repeated).1, .repeated)

/-- The first step of a settlement, before its record is written. -/
def settleBegin (token : AssessmentToken β) (outcome : Outcome ρ) (live : β) :
    Slot β ρ × Reply β ρ :=
  if token.epoch ≠ slot.epoch ∨ slot.state ≠ .pending then slot.spend .invalidated
  else match outcome.restriction slot.kind with
  | some reason => slot.spend (.restricted reason)
  | none =>
    if token.binding ≠ live then slot.spend .stale
    else ({ slot with state := .settling }, .settling ⟨token, outcome⟩)

/-- The second step, after its record was written or not. -/
def settleFinish (token : SettleToken β ρ) (recorded : Bool) (live : β) : Slot β ρ × Reply β ρ :=
  if token.epoch ≠ slot.epoch ∨ slot.state ≠ .settling then slot.spend .invalidated
  else if !recorded then slot.spend .unrecorded
  else if token.binding ≠ live then slot.spend .stale
  else match token.outcome.restriction slot.kind, token.outcome with
  | some reason, _ => slot.spend (.restricted reason)
  | none, .clear => ({ slot with state := .clear token.binding }, .clear)
  | none, .needsOwner reason =>
    ({ slot with state := .awaitingAck token.epoch token.binding reason }, .awaitingAck token.epoch)

/-- The first step of an acknowledgement, for the epoch that was displayed. -/
def ackBegin (displayedEpoch : Nat) (live : β) : Slot β ρ × Reply β ρ :=
  match slot.state with
  | .awaitingAck assessmentEpoch binding _ =>
    if slot.kind ≠ .notes ∨ assessmentEpoch ≠ slot.epoch ∨ displayedEpoch ≠ assessmentEpoch then
      slot.spend .invalidated
    else if binding ≠ live then slot.spend .stale
    else ({ slot with state := .ackRecording assessmentEpoch binding },
      .recording ⟨⟨assessmentEpoch, binding⟩⟩)
  | _ => slot.spend .invalidated

/-- The last step of an acknowledgement, after the decision was recorded or not. -/
def ackFinish (token : AckToken β) (recorded : Bool) (live : β) : Slot β ρ × Reply β ρ :=
  if token.epoch ≠ slot.epoch ∨ slot.state ≠ .ackRecording token.epoch token.binding then
    slot.spend .invalidated
  else if !recorded then slot.spend .unrecorded
  else if token.binding ≠ live then slot.spend .stale
  else ({ slot with state := .acknowledged token.epoch token.binding }, .acknowledged)

/-- The admission check: a clear slot is read, an acknowledged one consumed. -/
def admits (live : β) : Slot β ρ × Reply β ρ :=
  match slot.state with
  | .clear binding => if binding ≠ live then slot.spend .stale else (slot, .admittedClear)
  | .acknowledged assessmentEpoch binding =>
    if assessmentEpoch ≠ slot.epoch then slot.spend .invalidated
    else if binding ≠ live then slot.spend .stale
    else ({ slot with state := .consumed }, .admittedAcknowledged)
  | _ => slot.spend .invalidated

end Slot

/-- The operations of a slot. -/
inductive Call (β ρ : Type) where
  | begin (binding : β)
  | settleBegin (token : AssessmentToken β) (outcome : Outcome ρ) (live : β)
  | settleFinish (token : SettleToken β ρ) (recorded : Bool) (live : β)
  | restrict (reason : ρ)
  | ackBegin (displayedEpoch : Nat) (live : β)
  | ackFinish (token : AckToken β) (recorded : Bool) (live : β)
  | admits (live : β)

/-- One operation. A restriction spends the slot. -/
def Slot.step (slot : Slot β ρ) : Call β ρ → Slot β ρ × Reply β ρ
  | .begin binding => slot.begin binding
  | .settleBegin token outcome live => slot.settleBegin token outcome live
  | .settleFinish token recorded live => slot.settleFinish token recorded live
  | .restrict reason => slot.spend (.restricted reason)
  | .ackBegin displayedEpoch live => slot.ackBegin displayedEpoch live
  | .ackFinish token recorded live => slot.ackFinish token recorded live
  | .admits live => slot.admits live

/-! ## Runs of several slots -/

/-- A call with its answer. -/
abbrev Event (β ρ : Type) := Call β ρ × Reply β ρ

/-- The token of the call is one that these events issued. -/
def Issued (events : List (Event β ρ)) : Call β ρ → Prop
  | .settleBegin token _ _ => ∃ binding, (.begin binding, .started token) ∈ events
  | .settleFinish token _ _ => ∃ assessment outcome live,
    (.settleBegin assessment outcome live, .settling token) ∈ events
  | .ackFinish token _ _ => ∃ epoch live, (.ackBegin epoch live, .recording token) ∈ events
  | _ => True

/-- The slots of a system, and the events of each, newest first. -/
structure System (ι β ρ : Type) where
  slots : ι → Slot β ρ
  events : ι → List (Event β ρ)

/-- A slot of the system answers a call. -/
def System.act (system : System ι β ρ) (i : ι) (call : Call β ρ) : System ι β ρ :=
  let (slot, reply) := (system.slots i).step call
  ⟨Function.update system.slots i slot,
    Function.update system.events i ((call, reply) :: system.events i)⟩

/-- Fresh slots. -/
def System.new (kinds : ι → SlotKind) : System ι β ρ := ⟨fun i => .new (kinds i), fun _ => []⟩

/-- The systems that runs of fresh slots reach, each call presenting to a slot `i` a token that
some slot `j` issued where that is `allowed`. Tokens may be presented more than once. -/
inductive Reaches (kinds : ι → SlotKind)
    (allowed : System ι β ρ → ι → ι → Call β ρ → Prop) : System ι β ρ → Prop
  | new : Reaches kinds allowed (.new kinds)
  | act {system j i call} : Reaches kinds allowed system → Issued (system.events j) call →
    allowed system j i call → Reaches kinds allowed (system.act i call)

/-- The call's token passes every check of its settlement step. -/
def Slot.Accepts (slot : Slot β ρ) : Call β ρ → Prop
  | .settleBegin token outcome live => token.epoch = slot.epoch ∧ slot.state = .pending ∧
    outcome.restriction slot.kind = none ∧ token.binding = live
  | .settleFinish token recorded live => token.epoch = slot.epoch ∧ slot.state = .settling ∧
    recorded = true ∧ token.outcome.restriction slot.kind = none ∧ token.binding = live
  | _ => False

/-- These events began the assessment for this binding. -/
def Begun (events : List (Event β ρ)) (b : β) : Prop := ∃ token, (.begin b, .started token) ∈ events

/-- What the callers see to: no slot begins for a binding that another began for, and a settlement
step with another slot's token passes as live the binding that the slot itself began for. -/
def Careful (system : System ι β ρ) (issuer i : ι) : Call β ρ → Prop
  | .begin b => ∀ j, Begun (system.events j) b → j = i
  | .settleBegin _ _ live | .settleFinish _ _ live =>
    issuer = i ∨ ∀ b, Begun (system.events i) b → live = b
  | _ => True

/-! ## The events behind a state -/

/-- The events up to the record of a settlement. -/
def settled (b : β) (outcome : Outcome ρ) : List (Event β ρ) :=
  [(.settleBegin ⟨1, b⟩ outcome b, .settling ⟨⟨1, b⟩, outcome⟩), (.begin b, .started ⟨1, b⟩)]

/-- The events of a clear slot that was admitted `n` times. -/
def cleared (b : β) (n : Nat) : List (Event β ρ) :=
  List.replicate n (.admits b, .admittedClear) ++
    (.settleFinish ⟨⟨1, b⟩, .clear⟩ true b, .clear) :: settled b .clear

/-- The events of a slot that awaits an acknowledgement. -/
def awaited (b : β) (reason : ρ) : List (Event β ρ) :=
  (.settleFinish ⟨⟨1, b⟩, .needsOwner reason⟩ true b, .awaitingAck 1) ::
    settled b (.needsOwner reason)

/-- The events of a slot while an acknowledgement is recorded. -/
def recording (b : β) (reason : ρ) : List (Event β ρ) :=
  (.ackBegin 1 b, .recording ⟨⟨1, b⟩⟩) :: awaited b reason

/-- The events of an acknowledged slot. -/
def acknowledged (b : β) (reason : ρ) : List (Event β ρ) :=
  (.ackFinish ⟨⟨1, b⟩⟩ true b, .acknowledged) :: recording b reason

namespace Slot

/-- The events a slot stands for. -/
inductive Tells : Slot β ρ → List (Event β ρ) → Prop
  | unassessed {kind} : Tells ⟨kind, .unassessed, 0⟩ []
  | pending {kind b} : Tells ⟨kind, .pending, 1⟩ [(.begin b, .started ⟨1, b⟩)]
  | settling {kind b outcome} : Tells ⟨kind, .settling, 1⟩ (settled b outcome)
  | clear {kind b n} : Tells ⟨kind, .clear b, 1⟩ (cleared b n)
  | awaitingAck {b reason} : Tells ⟨.notes, .awaitingAck 1 b reason, 1⟩ (awaited b reason)
  | ackRecording {b reason} : Tells ⟨.notes, .ackRecording 1 b, 1⟩ (recording b reason)
  | acknowledged {b reason} : Tells ⟨.notes, .acknowledged 1 b, 1⟩ (acknowledged b reason)
  | consumed {b reason} :
    Tells ⟨.notes, .consumed, 1⟩ ((.admits b, .admittedAcknowledged) :: acknowledged b reason)
  | spent {kind reason epoch events} (h : epoch ≤ 2) : Tells ⟨kind, .spent reason, epoch⟩ events

variable {slot : Slot β ρ} {events later : List (Event β ρ)} {call : Call β ρ}

omit [DecidableEq β] [DecidableEq ρ]

/-- A spent slot is one whatever its events. -/
theorem Tells.spend (h : slot.Tells events) (reason : SpentReason ρ) :
    (slot.spend reason).1.Tells later := by
  cases h with
  | spent hepoch => exact .spent hepoch
  | _ => exact .spent (by simp)

/-- The events of a settlement issued its own token only. -/
theorem eq_of_issued_settled {token : SettleToken β ρ} {b live : β} {outcome : Outcome ρ}
    {recorded : Bool} (h : Issued (settled b outcome) (.settleFinish token recorded live)) :
    token = ⟨⟨1, b⟩, outcome⟩ := by
  obtain ⟨_, _, _, h⟩ := h
  simp only [settled, List.mem_cons, Prod.mk.injEq, Reply.settling.injEq, reduceCtorEq, and_false,
    List.not_mem_nil, or_false] at h
  exact h.2

/-- Spending leaves a spent slot. -/
theorem spent_spend (reason : SpentReason ρ) : ∃ r, (slot.spend reason).1.state = .spent r := by
  simp only [spend]
  split
  · next hstate => exact ⟨_, hstate⟩
  · exact ⟨_, rfl⟩

/-- A slot that its own admission consumed is neither clear nor acknowledged. -/
theorem Tells.not_admissible {b : β} (h : slot.Tells events)
    (hmem : (.admits b, .admittedAcknowledged) ∈ events) :
    (∀ live, slot.state ≠ .clear live) ∧ ∀ epoch live, slot.state ≠ .acknowledged epoch live := by
  cases h with
  | clear => simp [cleared, settled] at hmem
  | acknowledged => simp [TypedDecision.acknowledged, recording, awaited, settled] at hmem
  | _ => exact ⟨nofun, nofun⟩

variable [DecidableEq β]

/-- Only a slot that is clear or acknowledged under the live binding is admitted. -/
theorem state_of_admits (live : β) :
    ((slot.admits live).2 = .admittedClear → slot.state = .clear live) ∧
    ((slot.admits live).2 = .admittedAcknowledged →
      ∃ epoch, slot.state = .acknowledged epoch live) := by
  have hspend : ∀ reason, (slot.spend reason).2 ≠ .admittedClear ∧
      (slot.spend reason).2 ≠ .admittedAcknowledged := by
    intro reason
    simp only [spend]
    split <;> exact ⟨nofun, nofun⟩
  simp only [admits]
  split
  · next hstate => split_ifs with hlive <;> simp_all
  · next hstate => split_ifs with hepoch hlive <;> simp_all
  · exact ⟨(hspend _).1.elim, (hspend _).2.elim⟩

variable [DecidableEq ρ]

/-- One step adds its event to the story, if a token it accepts is the slot's own. -/
theorem Tells.step (h : slot.Tells events) (hissued : slot.Accepts call → Issued events call) :
    (slot.step call).1.Tells ((call, (slot.step call).2) :: events) := by
  obtain ⟨kind, state, epoch⟩ := slot
  cases call with
  | begin b =>
    simp only [Slot.step, begin]
    split
    · cases h
      exact .pending
    · exact h.spend .repeated
    · exact h.spend _
  | settleBegin token outcome live =>
    simp only [Slot.step, settleBegin]
    split
    · exact h.spend _
    · next hmatch =>
      obtain ⟨hepoch, rfl⟩ := not_or.mp hmatch |>.imp not_not.mp not_not.mp
      split
      · exact h.spend _
      · next hfits =>
        split_ifs with hlive
        · exact h.spend _
        · cases h
          obtain ⟨b, hb⟩ := hissued ⟨hepoch, rfl, hfits, not_not.mp hlive⟩
          obtain ⟨rfl, rfl⟩ : b = _ ∧ token = _ := by simpa using hb
          cases not_not.mp hlive
          exact .settling
  | settleFinish token recorded live =>
    simp only [Slot.step, settleFinish]
    split_ifs with hmatch hrecorded hlive
    any_goals exact h.spend _
    obtain ⟨hepoch, rfl⟩ := not_or.mp hmatch |>.imp not_not.mp not_not.mp
    obtain rfl : recorded = true := by simpa using hrecorded
    have hown := fun hfits => hissued ⟨hepoch, rfl, rfl, hfits, not_not.mp hlive⟩
    split
    · exact h.spend _
    · next hfits houtcome =>
      cases h
      cases eq_of_issued_settled (hown hfits)
      cases not_not.mp hlive
      cases houtcome
      exact .clear (n := 0)
    · next hfits houtcome =>
      cases h
      cases eq_of_issued_settled (hown hfits)
      cases not_not.mp hlive
      cases houtcome
      obtain rfl : kind = .notes := by simpa [Outcome.restriction] using hfits
      exact .awaitingAck
  | restrict reason => exact h.spend _
  | ackBegin displayedEpoch live =>
    simp only [Slot.step, ackBegin]
    split
    · split_ifs with hepoch hlive
      any_goals exact h.spend _
      cases not_not.mp hlive
      cases h
      obtain rfl : displayedEpoch = 1 := by simpa using hepoch
      exact .ackRecording
    · exact h.spend _
  | ackFinish token recorded live =>
    simp only [Slot.step, ackFinish]
    split_ifs with hmatch hrecorded hlive
    any_goals exact h.spend _
    obtain ⟨⟨tokenEpoch, b⟩⟩ := token
    obtain ⟨rfl, rfl⟩ := not_or.mp hmatch |>.imp not_not.mp not_not.mp
    cases not_not.mp hlive
    cases h
    obtain rfl : recorded = true := by simpa using hrecorded
    exact .acknowledged
  | admits live =>
    simp only [Slot.step, admits]
    split
    · split_ifs with hlive
      · exact h.spend _
      · cases not_not.mp hlive
        cases h
        exact .clear (n := _ + 1)
    · split_ifs with hepoch hlive
      any_goals exact h.spend _
      cases not_not.mp hlive
      cases h
      exact .consumed
    · exact h.spend _

/-- A call to a slot that is being assessed spends it, unless it accepts the call's token. -/
theorem step_of_not_accepts (hstate : slot.state = .pending ∨ slot.state = .settling)
    (hrefused : ¬ slot.Accepts call) : ∃ reason, (slot.step call).1.state = .spent reason := by
  have hspent := slot.spent_spend
  cases call with
  | settleBegin token outcome live =>
    simp only [Slot.step, settleBegin]
    split
    · exact hspent _
    · next hmatch =>
      obtain ⟨hepoch, hpending⟩ := not_or.mp hmatch |>.imp not_not.mp not_not.mp
      split
      · exact hspent _
      · next hfits =>
        rw [if_pos fun hlive => hrefused ⟨hepoch, hpending, hfits, hlive⟩]
        exact hspent _
  | settleFinish token recorded live =>
    simp only [Slot.step, settleFinish]
    split_ifs with hmatch hrecorded hlive
    any_goals exact hspent _
    obtain ⟨hepoch, hsettling⟩ := not_or.mp hmatch |>.imp not_not.mp not_not.mp
    have hrestricted : token.outcome.restriction slot.kind ≠ none := fun hfits =>
      hrefused ⟨hepoch, hsettling, by simpa using hrecorded, hfits, not_not.mp hlive⟩
    obtain ⟨reason, hreason⟩ := Option.ne_none_iff_exists'.mp hrestricted
    rw [hreason]
    exact hspent _
  | restrict reason => exact hspent _
  | begin | ackBegin | ackFinish | admits =>
    obtain hstate | hstate := hstate <;>
      simpa [Slot.step, begin, ackBegin, ackFinish, admits, hstate] using hspent _

end Slot

variable {kinds : ι → SlotKind} {system : System ι β ρ}

variable {j i : ι} {call later : Call β ρ}

/-- A slot goes on telling its events, if a token that it accepts is its own. -/
theorem tells_act (h : ∀ i, (system.slots i).Tells (system.events i))
    (hown : (system.slots j).Accepts call → Issued (system.events j) call) (i : ι) :
    ((system.act j call).slots i).Tells ((system.act j call).events i) := by
  simp only [System.act]
  by_cases hij : i = j
  · subst hij
    simpa only [Function.update_self] using (h i).step hown
  · simpa only [Function.update_of_ne hij] using h i

/-- **Admission follows the one assessment.** In a run whose tokens go to the slots that issued
them, a slot is admitted as clear only if its events are one begin for the live binding, its
settlement as clear by the tokens this issued, and such admissions; as acknowledged only if it is a
notes slot and its events are a settlement and an acknowledgement under the live binding, each
recorded; and never again after that. A spent slot stays as it is. -/
theorem admission_follows_assessment
    (h : Reaches kinds (fun _ issuer i _ => issuer = i) system) (i : ι) (live : β) :
    (((system.slots i).admits live).2 = .admittedClear → ∃ n, system.events i = cleared live n) ∧
    (((system.slots i).admits live).2 = .admittedAcknowledged → (system.slots i).kind = .notes ∧
      ∃ reason, system.events i = acknowledged live reason) ∧
    ((∃ b, (.admits b, .admittedAcknowledged) ∈ system.events i) →
      ((system.slots i).admits live).2 ≠ .admittedClear ∧
      ((system.slots i).admits live).2 ≠ .admittedAcknowledged) ∧
    (∀ reason call, (system.slots i).state = .spent reason →
      ((system.slots i).step call).1 = system.slots i) ∧
    (system.slots i).epoch ≤ 2 := by
  have htells : (system.slots i).Tells (system.events i) := by
    induction h generalizing i with
    | new => exact .unassessed
    | act _ hissued hown ih => exact tells_act ih (fun _ => hown ▸ hissued) i
  generalize system.slots i = slot, system.events i = events at htells
  obtain ⟨hclear, hack⟩ := slot.state_of_admits live
  refine ⟨fun h => ?_, fun h => ?_, fun ⟨b, hb⟩ => ?_, fun reason call hspent => ?_, ?_⟩
  · obtain ⟨kind, state, epoch⟩ := slot
    cases hclear h
    cases htells
    exact ⟨_, rfl⟩
  · obtain ⟨kind, state, epoch⟩ := slot
    obtain ⟨_, rfl⟩ := hack h
    cases htells
    exact ⟨rfl, _, rfl⟩
  · obtain ⟨hnotClear, hnotAck⟩ := htells.not_admissible hb
    exact ⟨fun h => hnotClear _ (hclear h), fun h => (hack h).elim fun _ => hnotAck _ _⟩
  · cases call <;> simp [Slot.step, Slot.begin, Slot.settleBegin, Slot.settleFinish, Slot.ackBegin,
      Slot.ackFinish, Slot.admits, Slot.spend, hspent]
  · obtain ⟨kind, state, epoch⟩ := slot
    cases htells <;> first | assumption | exact Nat.le_of_ble_eq_true rfl

/-- Tokens are private: a call with another slot's token takes no slot further in its assessment,
and a slot that is clear or awaits an acknowledgement began for the same binding. -/
def Private (allowed : System ι β ρ → ι → ι → Call β ρ → Prop) (system : System ι β ρ) : Prop :=
  (∀ issuer i call, Issued (system.events issuer) call → allowed system issuer i call →
    issuer ≠ i → (system.slots i).state = .pending ∨ (system.slots i).state = .settling →
    ((system.slots i).step call).1.state ≠ .settling ∧
    (∀ b, ((system.slots i).step call).1.state ≠ .clear b) ∧
    ∀ epoch b reason, ((system.slots i).step call).1.state ≠ .awaitingAck epoch b reason) ∧
  ∀ i b, ((system.slots i).state = .clear b ∨
      ∃ epoch reason, (system.slots i).state = .awaitingAck epoch b reason) →
    (.begin b, .started ⟨1, b⟩) ∈ system.events i

/-- The binding of the token that a settlement step presents. -/
def Call.tokenBinding : Call β ρ → Option β
  | .settleBegin token _ _ => some token.binding
  | .settleFinish token _ _ => some token.binding
  | _ => none

/-- What holds along careful runs: every slot's state is the one its own events stand for, no two
slots began for one binding, and a slot's tokens carry a binding that it began for. -/
structure System.Separate (system : System ι β ρ) : Prop where
  tells : ∀ i, (system.slots i).Tells (system.events i)
  begun : ∀ i j b, Begun (system.events i) b → Begun (system.events j) b → i = j
  issued : ∀ i call, Issued (system.events i) call →
    ∀ b ∈ call.tokenBinding, Begun (system.events i) b

section
omit [DecidableEq ι] [DecidableEq β] [DecidableEq ρ]

/-- A slot that is being assessed was begun. -/
theorem Slot.Tells.begun {slot : Slot β ρ} {events : List (Event β ρ)} (h : slot.Tells events)
    (hstate : slot.state = .pending ∨ slot.state = .settling) : ∃ b, Begun events b := by
  cases h with
  | pending => exact ⟨_, _, .head _⟩
  | settling => exact ⟨_, _, .tail _ (.head _)⟩
  | _ => simp at hstate

/-- A careful call whose token the slot accepts presents it to its issuer. -/
theorem System.Separate.issuer_eq (h : system.Separate) {issuer i : ι} {call : Call β ρ}
    (hissued : Issued (system.events issuer) call) (hcareful : Careful system issuer i call)
    (haccepts : (system.slots i).Accepts call) : issuer = i := by
  -- another slot's token would be for the binding that this slot began for
  have hforeign : ∀ {live : β}, call.tokenBinding = some live →
      (system.slots i).state = .pending ∨ (system.slots i).state = .settling →
      (∀ b, Begun (system.events i) b → live = b) → issuer = i := by
    intro live htoken hstate hlive
    obtain ⟨b, hb⟩ := (h.tells i).begun hstate
    obtain rfl := hlive b hb
    exact h.begun _ _ _ (h.issued issuer call hissued _ htoken) hb
  cases call with
  | settleBegin token outcome live =>
    obtain ⟨-, hstate, -, rfl⟩ := haccepts
    exact hcareful.elim id (hforeign rfl (.inl hstate))
  | settleFinish token recorded live =>
    obtain ⟨-, hstate, -, -, rfl⟩ := haccepts
    exact hcareful.elim id (hforeign rfl (.inr hstate))
  | _ => exact haccepts.elim

end

/-- A token is answered for the binding of the call: a begin's own, or that of the token which a
settlement step accepted. -/
theorem Slot.tokenBinding_of_issued {slot : Slot β ρ} {b : β}
    (hissued : Issued [(call, (slot.step call).2)] later) (hb : b ∈ later.tokenBinding) :
    (∃ token, call = .begin b ∧ (slot.step call).2 = .started token) ∨
      slot.Accepts call ∧ b ∈ call.tokenBinding := by
  have hspend : ∀ reason token, (slot.spend reason).2 ≠ .settling token := by
    intro reason token
    simp only [spend]
    split <;> exact nofun
  cases later with
  | settleBegin token outcome live =>
    obtain ⟨began, hmem⟩ := hissued
    obtain ⟨rfl, hreply⟩ := Prod.mk.inj (List.mem_singleton.mp hmem)
    refine .inl ⟨token, ?_, hreply.symm⟩
    simp only [Slot.step, begin] at hreply
    split at hreply <;> cases hreply
    cases hb
    rfl
  | settleFinish token recorded live =>
    obtain ⟨presented, outcome, current, hmem⟩ := hissued
    obtain ⟨rfl, hreply⟩ := Prod.mk.inj (List.mem_singleton.mp hmem)
    simp only [Slot.step, settleBegin] at hreply
    split at hreply
    · exact absurd hreply.symm (hspend _ _)
    next hmatch =>
    split at hreply
    · exact absurd hreply.symm (hspend _ _)
    next hfits =>
    split at hreply
    · exact absurd hreply.symm (hspend _ _)
    next hlive =>
    obtain ⟨hepoch, hpending⟩ := not_or.mp hmatch |>.imp not_not.mp not_not.mp
    cases hreply
    exact .inr ⟨⟨hepoch, hpending, hfits, not_not.mp hlive⟩, hb⟩
  | _ => cases hb

/-- A call adds its event to those of its slot. -/
theorem System.mem_events_act {event : Event β ρ} :
    event ∈ (system.act i call).events j ↔
      event ∈ system.events j ∨ j = i ∧ event = (call, ((system.slots i).step call).2) := by
  by_cases hji : j = i
  · subst hji
    simp [System.act, or_comm]
  · simp [System.act, hji]

/-- After a call only its slot has begun for more bindings. -/
theorem System.begun_act {b : β} :
    Begun ((system.act i call).events j) b ↔ Begun (system.events j) b ∨
      j = i ∧ ∃ token, call = .begin b ∧ ((system.slots i).step call).2 = .started token := by
  simp only [Begun, mem_events_act, exists_or, exists_and_left, Prod.mk.injEq, eq_comm]

/-- A token that is issued after a call was issued before, or is the one that it answers. -/
theorem System.issued_act (h : Issued ((system.act i call).events j) later) :
    Issued (system.events j) later ∨
      j = i ∧ Issued [(call, ((system.slots i).step call).2)] later := by
  cases later with
  | settleBegin | settleFinish | ackFinish =>
    simp only [Issued, mem_events_act, exists_or, exists_and_left, List.mem_singleton] at h ⊢
    exact h
  | _ => exact .inl trivial

/-- A careful call keeps the slots separate. -/
theorem System.Separate.act (h : system.Separate) {issuer : ι}
    (hissued : Issued (system.events issuer) call) (hcareful : Careful system issuer i call) :
    (system.act i call).Separate where
  tells := tells_act h.tells fun haccepts => h.issuer_eq hissued hcareful haccepts ▸ hissued
  begun j k b hj hk := by
    rcases begun_act.mp hj with hjold | ⟨hji, _, hjcall, _⟩ <;>
      rcases begun_act.mp hk with hkold | ⟨hki, _, hkcall, _⟩
    · exact h.begun j k b hjold hkold
    · subst hkcall
      rw [hki, hcareful j hjold]
    · subst hjcall
      rw [hji, hcareful k hkold]
    · rw [hji, hki]
  issued j later hlater b hb := by
    refine begun_act.mpr ?_
    rcases issued_act hlater with hold | ⟨rfl, hnew⟩
    · exact .inl (h.issued j later hold b hb)
    rcases Slot.tokenBinding_of_issued hnew hb with ⟨token, hcall⟩ | ⟨haccepts, htoken⟩
    · exact .inr ⟨rfl, token, hcall⟩
    · obtain rfl := h.issuer_eq hissued hcareful haccepts
      exact .inl (h.issued issuer call hissued b htoken)

/-- Careful runs keep the slots separate. -/
theorem Reaches.separate (h : Reaches kinds Careful system) : system.Separate := by
  induction h with
  | new =>
    refine ⟨fun _ => .unassessed, fun _ _ _ hbegun => ?_, fun _ call hissued b hb => ?_⟩
    · obtain ⟨_, hmem⟩ := hbegun
      cases hmem
    · cases call <;> simp_all [Issued, Call.tokenBinding, System.new]
  | act _ hissued hcareful ih => exact ih.act hissued hcareful

/-- **A token is private to its slot** in every run in which no two slots begin for one binding and
a token of another slot is compared with the slot's own binding. -/
theorem tokens_stay_private (h : Reaches kinds Careful system) : Private Careful system := by
  have hseparate := h.separate
  refine ⟨fun issuer i call hissued hcareful hne hstate => ?_, fun i b hstate => ?_⟩
  · obtain ⟨reason, hspent⟩ := Slot.step_of_not_accepts hstate fun haccepts =>
      hne (hseparate.issuer_eq hissued hcareful haccepts)
    rw [hspent]
    exact ⟨nofun, nofun, nofun⟩
  · have htells := hseparate.tells i
    generalize system.slots i = slot, system.events i = events at htells hstate ⊢
    obtain ⟨kind, state, epoch⟩ := slot
    obtain rfl | ⟨_, _, rfl⟩ := hstate <;> cases htells <;> simp [cleared, awaited, settled]

/-- Three slots that begin for three bindings. The first one's token is presented to the second,
and the third is settled as clear by its own tokens. -/
def presentedSystem : System (Fin 3) Nat String :=
  (System.new fun _ => .sentinel : System (Fin 3) Nat String).act 0 (.begin 7)
    |>.act 1 (.begin 8) |>.act 2 (.begin 9) |>.act 1 (.settleBegin ⟨1, 7⟩ .clear 8)
    |>.act 2 (.settleBegin ⟨1, 9⟩ .clear 9) |>.act 2 (.settleFinish ⟨⟨1, 9⟩, .clear⟩ true 9)

theorem presentedSystem_private : Private Careful presentedSystem ∧
    (presentedSystem.slots 1).state = .spent .stale ∧
    (presentedSystem.slots 2).state = .clear 9 := by
  have hbegun : Reaches (fun _ => .sentinel) Careful
      ((.new fun _ => .sentinel : System (Fin 3) Nat String).act 0 (.begin 7)
        |>.act 1 (.begin 8) |>.act 2 (.begin 9)) := by
    refine .act (j := 0) (.act (j := 0) (.act (j := 0) .new trivial ?_) trivial ?_) trivial ?_
    all_goals simp [Careful, Begun, System.mem_events_act, System.new]
  refine ⟨tokens_stay_private (.act (j := 2) (.act (j := 2) (.act (j := 0) hbegun ⟨7, .head _⟩
    (.inr ?_)) ⟨9, .head _⟩ (.inl rfl)) ⟨⟨1, 9⟩, .clear, 9, .head _⟩ (.inl rfl)), rfl, rfl⟩
  -- the second slot is asked with its own binding
  simp [Begun, System.mem_events_act, System.new]

/-- Two slots that begin under two bindings: the first one's token settles the second. -/
theorem foreign_token_settles : ¬ ∀ (kinds : Bool → SlotKind)
    (system : System Bool (Vector UInt8 32) String),
    Reaches kinds (fun _ _ _ _ => True) system → Private (fun _ _ _ _ => True) system := by
  intro h
  let b : Vector UInt8 32 := .replicate 32 0
  have hbegun : Reaches (fun _ => .sentinel) (fun _ _ _ _ => True)
      ((.new fun _ => .sentinel : System Bool _ String).act false (.begin b) |>.act
        true (.begin (.replicate 32 1))) :=
    .act (j := true) (.act (j := true) .new trivial trivial) trivial trivial
  have hprivate := (h _ _ hbegun).1 false true (.settleBegin ⟨1, b⟩ .clear b) ⟨b, .head _⟩ trivial
    nofun (.inl rfl)
  exact hprivate.1 rfl

/-- One of two slots, begun and settled as clear by its own tokens. -/
def clearSystem : System Bool Nat String :=
  (System.new fun _ => .sentinel : System Bool Nat String).act false (.begin 7)
    |>.act false (.settleBegin ⟨1, 7⟩ .clear 7) |>.act false (.settleFinish ⟨⟨1, 7⟩, .clear⟩ true 7)

theorem clearSystem_admitted : ((clearSystem.slots false).admits 7).2 = .admittedClear ∧
    ∃ n, clearSystem.events false = cleared 7 n := by
  have hreaches : Reaches (fun _ => .sentinel) (fun _ issuer i _ => issuer = i) clearSystem :=
    .act (.act (.act .new trivial rfl) ⟨7, .head _⟩ rfl) ⟨⟨1, 7⟩, .clear, 7, .head _⟩ rfl
  exact ⟨rfl, (admission_follows_assessment hreaches false 7).1 rfl⟩

end NexusOs.TypedDecision
