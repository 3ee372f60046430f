import NexusOs.Lib.WordField
import NexusOs.Ledger.Records

/-!
# The published word

A ledger publishes its health in one 64-bit word: 16 flag bits, the count of live tickets
(24 bits from bit 16) and the count of results not yet taken over (24 bits from bit 40).
The first half of the file is the code: the masks, `field`, `withField`, `countStep` and the
closures that the exchanges on the word run. The second half reads a word as four
independent things, its status, its handover fault and its two counts, and says what each
closure does to each of them.
-/

namespace NexusOs.Ledger

open BitVec hiding and_assoc

open WordField (lowMask)

variable {i : Nat}

abbrev Word := BitVec 64

def PHASE_NEED_BARRIER : Word := 0x1
def PHASE_RESOLVING : Word := 0x2
def SESSION_OPEN : Word := 0x4
def SESSION_SEALED : Word := 0x8
def LATCHED : Word := 0x10
def U_OCCUPIED : Word := 0x20
def C_OCCUPIED : Word := 0x40
def X_OCCUPIED : Word := 0x80
def HANDOVER_FAULT : Word := 0x100
def FLAGS : Word := 0xFFFF

/-- `live`, tickets alive: 24 bits from bit 16. -/
def LIVE_SHIFT : Nat := 16

/-- `unapplied`, results not yet taken over: 24 bits from bit 40. -/
def UNAPPLIED_SHIFT : Nat := 40

def COUNT_MAX : Word := 0xFFFFFF
def TICKET_LIMIT_MAX : Nat := 0xFFFFFF

/-- `u64::checked_add`. -/
def checkedAdd (a b : Word) : Option Word :=
  if a.toNat + b.toNat < 2 ^ 64 then some (a + b) else none

/-- `u64::checked_sub`. -/
def checkedSub (a b : Word) : Option Word := if b.toNat ≤ a.toNat then some (a - b) else none

/-- `u64::saturating_add`. -/
def saturatingAdd (a b : Word) : Word := (checkedAdd a b).getD (BitVec.allOnes 64)

variable (word : Word)

/-- A count field of `word`. A shift by 64 or more gives zero, as `checked_shr` does. -/
def field (shift : Nat) : Word := (word >>> shift) &&& COUNT_MAX

/-- `word` with a count field replaced. -/
def withField (shift : Nat) (value : Word) : Word :=
  let mask := COUNT_MAX <<< shift
  (word &&& ~~~mask) ||| ((value <<< shift) &&& mask)

/-- The count a step leads to, or `none` where `countStep` refuses it: the step would
overflow or underflow. -/
def countNext (shift : Nat) (up : Bool) : Option Word :=
  let now := field word shift
  if up then (checkedAdd now 1).filter (fun next => next.toNat ≤ COUNT_MAX.toNat)
  else checkedSub now 1

/-- One checked step of a count. A step that would overflow or underflow sets the handover
fault and leaves the count as it is. -/
def countStep (shift : Nat) (up : Bool) : Word :=
  match countNext word shift up with
  | some next => withField word shift next
  | none => word ||| HANDOVER_FAULT

/-- Whether `Health::arm` finds room below the limit. -/
def armRoom (limit : Nat) (word : Word) : Bool := decide ((field word LIVE_SHIFT).toNat < limit)

/-- The exchange of `Health::arm`: one more live ticket below the limit, and the handover
fault at it. -/
def armStep (limit : Nat) (word : Word) : Word :=
  let live := field word LIVE_SHIFT
  if armRoom limit word then withField word LIVE_SHIFT (saturatingAdd live 1)
  else word ||| HANDOVER_FAULT

/-- The exchange of `Ticket::confirm` and of a dropped ticket, on an Armed ticket. -/
def disarmStep : Word := countStep word LIVE_SHIFT false

/-- The exchange of `Ticket::confirm` on a Counted ticket. -/
def confirmStep : Word := countStep (countStep word UNAPPLIED_SHIFT false) LIVE_SHIFT false

/-- The exchange of `Ticket::expire` on an Armed ticket. -/
def expireStep : Word := countStep word UNAPPLIED_SHIFT true

/-- The exchange that only raises the handover fault. -/
def faultStep : Word := word ||| HANDOVER_FAULT

/-- The exchange by which a store operation publishes the core's flags, and counts the lent
ticket if the operation decided to. -/
def publishStep (flags : Word) (counted : Bool) (word : Word) : Word :=
  let carried := (word &&& ~~~FLAGS) ||| (word &&& HANDOVER_FAULT) ||| flags
  if counted then countStep carried UNAPPLIED_SHIFT true else carried

/-- `HealthView::admits`: exactly Healthy and open with nothing else set, and no result
waiting to be taken over. -/
def admits : Bool := word &&& FLAGS == SESSION_OPEN && field word UNAPPLIED_SHIFT == 0

/-- `HealthView::handover_fault`. -/
def handoverFault : Bool := word &&& HANDOVER_FAULT != 0

/-! ## Four independent readings -/

/-- The flag bits a store operation publishes. -/
def status : Word := word &&& (FLAGS &&& ~~~HANDOVER_FAULT)

/-- The count of live tickets. -/
def live : Nat := (field word LIVE_SHIFT).toNat

/-- The count of results not yet taken over. -/
def unapplied : Nat := (field word UNAPPLIED_SHIFT).toNat

variable {word}

/-- Bits a store operation may publish: flag bits other than the handover fault. -/
def IsStatus (flags : Word) : Prop := flags &&& (FLAGS &&& ~~~HANDOVER_FAULT) = flags

theorem getLsbD_HANDOVER_FAULT (i : Nat) : HANDOVER_FAULT.getLsbD i = decide (i = 8) := by
  rw [show HANDOVER_FAULT = BitVec.twoPow 64 8 from rfl]
  by_cases h : i = 8
  · simp [h]
  · simp [h, Ne.symm h]

theorem getLsbD_FLAGS (i : Nat) : FLAGS.getLsbD i = decide (i < 16) := by
  rw [show FLAGS = lowMask 64 16 from rfl]
  by_cases h : i < 16
  · have : i < 64 := by omega
    simp [this]
  · simp [h]

theorem field_eq_get (word : Word) (shift : Nat) :
    field word shift = WordField.get 24 shift word := rfl

theorem withField_eq_put (word : Word) (shift : Nat) (value : Word) :
    withField word shift value = WordField.put 24 shift word value := rfl

/-- Bit `i` of the status. -/
theorem getLsbD_status (word : Word) (i : Nat) :
    (status word).getLsbD i = (word.getLsbD i && decide (i < 16) && !decide (i = 8)) := by
  by_cases h : i < 16
  · have hw : i < 64 := by omega
    simp only [status, getLsbD_and, getLsbD_not, getLsbD_FLAGS, getLsbD_HANDOVER_FAULT, h, hw]
    simp
  · simp [status, getLsbD_FLAGS, h]

/-- The handover fault is bit 8. -/
theorem handoverFault_eq (word : Word) : handoverFault word = word.getLsbD 8 := by
  have hbit : ∀ i, (word &&& HANDOVER_FAULT).getLsbD i = (word.getLsbD 8 && decide (i = 8)) := by
    intro i
    rw [getLsbD_and, getLsbD_HANDOVER_FAULT]
    by_cases h : i = 8
    · simp [h]
    · simp [h]
  cases hw : word.getLsbD 8 with
  | false =>
    have hzero : word &&& HANDOVER_FAULT = 0 := by
      apply eq_of_getLsbD_eq
      intro i _
      rw [hbit, hw]
      simp
    simp [handoverFault, hzero]
  | true =>
    have hne : word &&& HANDOVER_FAULT ≠ 0 := by
      intro hzero
      have h8 := hbit 8
      rw [hzero, hw] at h8
      simp at h8
    simpa [handoverFault] using hne

variable {flags : Word}

/-- Status bits are flag bits, and not the fault. -/
theorem IsStatus.getLsbD (h : IsStatus flags) (hi : 16 ≤ i ∨ i = 8) : flags.getLsbD i = false := by
  have hbit := getLsbD_status flags i
  rw [status, h] at hbit
  rw [hbit]
  rcases hi with hi | hi
  · simp [Nat.not_lt.mpr hi]
  · simp [hi]

/-! ## What the closures do -/

section Readings

variable (word value : Word) {shift limit : Nat} {up : Bool}

/-- Raising the fault raises the fault. -/
@[simp] theorem handoverFault_faultStep : handoverFault (faultStep word) = true := by
  simp [handoverFault_eq, faultStep, getLsbD_HANDOVER_FAULT]

/-- Raising the fault leaves the status. -/
@[simp] theorem status_faultStep : status (faultStep word) = status word := by
  apply eq_of_getLsbD_eq
  intro i _
  rw [getLsbD_status, getLsbD_status, faultStep, getLsbD_or, getLsbD_HANDOVER_FAULT]
  by_cases h : i = 8
  · simp [h]
  · simp [h]

theorem field_faultStep (h : 16 ≤ shift) : field (faultStep word) shift = field word shift := by
  rw [field_eq_get]
  apply WordField.get_congr
  intro i hi _
  rw [faultStep, getLsbD_or, getLsbD_HANDOVER_FAULT]
  have : i ≠ 8 := by omega
  simp [this]

/-- Raising the fault leaves the live count. -/
@[simp] theorem live_faultStep : live (faultStep word) = live word := by
  rw [live, field_faultStep word (by decide), live]

/-- Raising the fault leaves the unapplied count. -/
@[simp] theorem unapplied_faultStep : unapplied (faultStep word) = unapplied word := by
  rw [unapplied, field_faultStep word (by decide), unapplied]

/-- A count is at most `COUNT_MAX`. -/
theorem field_le (shift : Nat) : (field word shift).toNat ≤ 0xFFFFFF := by
  have h : (WordField.get 24 shift word).toNat < 2 ^ 24 := WordField.toNat_get_lt
  rw [field_eq_get]
  omega

theorem getLsbD_withField_low (h : 16 ≤ shift) (value : Word) (hi : i < 16) :
    (withField word shift value).getLsbD i = word.getLsbD i := by
  rw [withField_eq_put, WordField.getLsbD_put, if_neg (by omega)]

/-- Replacing a count leaves the status. -/
theorem status_withField (h : 16 ≤ shift) (value : Word) :
    status (withField word shift value) = status word := by
  apply eq_of_getLsbD_eq
  intro i _
  rw [getLsbD_status, getLsbD_status]
  by_cases hi : i < 16
  · rw [getLsbD_withField_low word h value hi]
  · simp [hi]

/-- Replacing a count leaves the fault. -/
theorem handoverFault_withField (h : 16 ≤ shift) (value : Word) :
    handoverFault (withField word shift value) = handoverFault word := by
  rw [handoverFault_eq, handoverFault_eq, getLsbD_withField_low word h value (by decide)]

/-- A replaced count holds the value put there. -/
theorem field_withField (h : shift + 24 ≤ 64) {value : Word} (hvalue : value.toNat ≤ 0xFFFFFF) :
    field (withField word shift value) shift = value := by
  have hlt : value.toNat < 2 ^ 24 := by omega
  rw [withField_eq_put]
  exact WordField.get_put_same h hlt

/-- Replacing the live count leaves the unapplied count. -/
theorem unapplied_withField_live :
    unapplied (withField word LIVE_SHIFT value) = unapplied word := by
  rw [unapplied, field_eq_get, withField_eq_put, WordField.get_put_other (by decide)]
  rfl

/-- Replacing the unapplied count leaves the live count. -/
theorem live_withField_unapplied : live (withField word UNAPPLIED_SHIFT value) = live word := by
  rw [live, field_eq_get, withField_eq_put, WordField.get_put_other (by decide)]
  rfl

/-- Where a count has room to rise, the step leads one up. -/
theorem countNext_up (h : (field word shift).toNat < 0xFFFFFF) :
    ∃ next, countNext word shift true = some next ∧ next.toNat = (field word shift).toNat + 1 := by
  have hone : (1 : Word).toNat = 1 := rfl
  have hsum : (field word shift + 1).toNat = (field word shift).toNat + 1 := by
    exact Nat.mod_eq_of_lt (by omega)
  refine ⟨field word shift + 1, ?_, hsum⟩
  have hadd : checkedAdd (field word shift) 1 = some (field word shift + 1) := by
    rw [checkedAdd, if_pos (by rw [hone]; omega)]
  have hmax : COUNT_MAX.toNat = 0xFFFFFF := rfl
  simp only [countNext, if_true, hadd, Option.filter]
  rw [if_pos]
  simp only [decide_eq_true_eq]
  omega

/-- A positive count steps one down. -/
theorem countNext_down (h : 0 < (field word shift).toNat) :
    ∃ next, countNext word shift false = some next ∧ next.toNat = (field word shift).toNat - 1 := by
  have hone : (1 : Word).toNat = 1 := rfl
  refine ⟨field word shift - 1, ?_, ?_⟩
  · simp only [countNext, checkedSub]
    rw [if_neg (by decide), if_pos (by omega)]
  · rw [toNat_sub]
    omega

/-- A count step keeps the status whether or not it is refused. -/
theorem status_countStep (h : 16 ≤ shift) (up : Bool) :
    status (countStep word shift up) = status word := by
  rw [countStep]
  split
  · exact status_withField word h _
  · exact status_faultStep word

variable {next : Word}

/-- What a step of the live count that is not refused leaves. -/
theorem countStep_live (h : countNext word LIVE_SHIFT up = some next)
    (hmax : next.toNat ≤ 0xFFFFFF) :
    handoverFault (countStep word LIVE_SHIFT up) = handoverFault word ∧
      live (countStep word LIVE_SHIFT up) = next.toNat ∧
      unapplied (countStep word LIVE_SHIFT up) = unapplied word := by
  rw [countStep, h]
  refine ⟨handoverFault_withField word (by decide) _, ?_, unapplied_withField_live word _⟩
  rw [live, field_withField word (by decide) hmax]

/-- What a step of the unapplied count that is not refused leaves. -/
theorem countStep_unapplied (h : countNext word UNAPPLIED_SHIFT up = some next)
    (hmax : next.toNat ≤ 0xFFFFFF) :
    handoverFault (countStep word UNAPPLIED_SHIFT up) = handoverFault word ∧
      unapplied (countStep word UNAPPLIED_SHIFT up) = next.toNat ∧
      live (countStep word UNAPPLIED_SHIFT up) = live word := by
  rw [countStep, h]
  refine ⟨handoverFault_withField word (by decide) _, ?_, live_withField_unapplied word _⟩
  rw [unapplied, field_withField word (by decide) hmax]

/-- One down on the live count. -/
theorem disarmStep_spec (h : 0 < live word) :
    (countNext word LIVE_SHIFT false).isSome = true ∧
      handoverFault (disarmStep word) = handoverFault word ∧
      live (disarmStep word) = live word - 1 ∧
      unapplied (disarmStep word) = unapplied word := by
  obtain ⟨next, hnext, hvalue⟩ := countNext_down word h
  have hle := field_le word LIVE_SHIFT
  have hspec := countStep_live word hnext (by omega)
  rw [disarmStep]
  exact ⟨by simp [hnext], hspec.1, by rw [hspec.2.1, hvalue, live], hspec.2.2⟩

/-- One up on the unapplied count. -/
theorem expireStep_spec (h : unapplied word < 0xFFFFFF) :
    (countNext word UNAPPLIED_SHIFT true).isSome = true ∧
      handoverFault (expireStep word) = handoverFault word ∧
      live (expireStep word) = live word ∧
      unapplied (expireStep word) = unapplied word + 1 := by
  obtain ⟨next, hnext, hvalue⟩ := countNext_up word h
  have hroom : (field word UNAPPLIED_SHIFT).toNat < 0xFFFFFF := h
  have hspec := countStep_unapplied word hnext (by omega)
  rw [expireStep]
  exact ⟨by simp [hnext], hspec.1, hspec.2.2, by rw [hspec.2.1, hvalue, unapplied]⟩

/-- One down on both counts. -/
theorem confirmStep_spec (hu : 0 < unapplied word) (hl : 0 < live word) :
    (countNext word UNAPPLIED_SHIFT false).isSome = true ∧
      (countNext (countStep word UNAPPLIED_SHIFT false) LIVE_SHIFT false).isSome = true ∧
      handoverFault (confirmStep word) = handoverFault word ∧
      live (confirmStep word) = live word - 1 ∧
      unapplied (confirmStep word) = unapplied word - 1 := by
  obtain ⟨next, hnext, hvalue⟩ := countNext_down word hu
  have hle := field_le word UNAPPLIED_SHIFT
  have hfirst := countStep_unapplied word hnext (by omega)
  have hsecond := disarmStep_spec (countStep word UNAPPLIED_SHIFT false) (by omega)
  rw [disarmStep] at hsecond
  rw [confirmStep]
  refine ⟨by simp [hnext], hsecond.1, ?_, ?_, ?_⟩
  · rw [hsecond.2.1, hfirst.1]
  · rw [hsecond.2.2.1, hfirst.2.2]
  · rw [hsecond.2.2.2, hfirst.2.1, hvalue, unapplied]

/-- Arming below the limit: one up on the live count. -/
theorem armStep_room (hlimit : limit ≤ 0xFFFFFF) (h : live word < limit) :
    handoverFault (armStep limit word) = handoverFault word ∧
      live (armStep limit word) = live word + 1 ∧
      unapplied (armStep limit word) = unapplied word := by
  have hone : (1 : Word).toNat = 1 := rfl
  have hroom : armRoom limit word = true := by
    rw [armRoom, decide_eq_true_eq]
    exact h
  have hlive : (field word LIVE_SHIFT).toNat < limit := h
  have hadd : checkedAdd (field word LIVE_SHIFT) 1 = some (field word LIVE_SHIFT + 1) := by
    rw [checkedAdd, if_pos (by rw [hone]; omega)]
  have hsum : (field word LIVE_SHIFT + 1).toNat = (field word LIVE_SHIFT).toNat + 1 := by
    exact Nat.mod_eq_of_lt (by omega)
  simp only [armStep, hroom, if_true, saturatingAdd, hadd, Option.getD_some]
  refine ⟨handoverFault_withField word (by decide) _, ?_, unapplied_withField_live word _⟩
  rw [live, field_withField word (by decide) (by omega), hsum, live]

/-- Arming at the limit raises the fault. -/
theorem armStep_full (h : limit ≤ live word) : armStep limit word = faultStep word := by
  have hroom : armRoom limit word = false := by
    rw [armRoom, decide_eq_false_iff_not]
    exact Nat.not_lt.mpr h
  simp [armStep, hroom, faultStep]

/-- Arming keeps the status. -/
@[simp] theorem status_armStep (limit : Nat) : status (armStep limit word) = status word := by
  rw [armStep]
  split
  · exact status_withField word (by decide) _
  · exact status_faultStep word

/-- The word a store operation carries over, with its flags. -/
theorem getLsbD_carried (hflags : IsStatus flags) (i : Nat) :
    (publishStep flags false word).getLsbD i =
      if i < 16 ∧ i ≠ 8 then flags.getLsbD i else word.getLsbD i := by
  simp only [publishStep, Bool.false_eq_true, if_false, getLsbD_or, getLsbD_and,
    getLsbD_not, getLsbD_FLAGS, getLsbD_HANDOVER_FAULT]
  by_cases hlow : i < 16
  · by_cases h8 : i = 8
    · rw [hflags.getLsbD (.inr h8)]
      simp [h8]
    · simp [hlow, h8]
  · have hne : i ≠ 8 := by omega
    rw [hflags.getLsbD (Or.inl (Nat.not_lt.mp hlow))]
    by_cases hw : i < 64
    · simp [hlow, hne, hw]
    · simp [getLsbD_of_ge word i (Nat.not_lt.mp hw)]

/-- A publication sets the status and leaves the fault and the counts. -/
theorem publishStep_plain (hflags : IsStatus flags) :
    status (publishStep flags false word) = flags ∧
      handoverFault (publishStep flags false word) = handoverFault word ∧
      live (publishStep flags false word) = live word ∧
      unapplied (publishStep flags false word) = unapplied word := by
  have hbits := getLsbD_carried word hflags
  have hcount : ∀ shift, 16 ≤ shift →
      field (publishStep flags false word) shift = field word shift := by
    intro shift hshift
    rw [field_eq_get]
    apply WordField.get_congr
    intro i hi _
    rw [hbits, if_neg (by omega)]
  refine ⟨?_, ?_, ?_, ?_⟩
  · apply eq_of_getLsbD_eq
    intro i _
    rw [getLsbD_status, hbits]
    by_cases hlow : i < 16
    · by_cases h8 : i = 8
      · rw [hflags.getLsbD (.inr h8)]
        simp [h8]
      · simp [hlow, h8]
    · rw [hflags.getLsbD (Or.inl (Nat.not_lt.mp hlow))]
      simp [hlow]
  · rw [handoverFault_eq, handoverFault_eq, hbits, if_neg (by omega)]
  · rw [live, hcount _ (by decide), live]
  · rw [unapplied, hcount _ (by decide), unapplied]

/-- A publication that counts its ticket is a publication and one up on the unapplied
count. -/
theorem publishStep_counted (flags : Word) :
    publishStep flags true word = expireStep (publishStep flags false word) := rfl

/-- Publishing the status a word already has changes nothing. -/
theorem publishStep_same (hflags : IsStatus flags) (hstatus : status word = flags) :
    publishStep flags false word = word := by
  apply eq_of_getLsbD_eq
  intro i _
  rw [getLsbD_carried word hflags]
  split
  · rename_i h
    rw [← hstatus, getLsbD_status]
    simp [h]
  · rfl

/-- A word that admits has the status open and nothing else, no fault was raised and no result
waits. -/
theorem of_admits (h : admits word = true) :
    status word = SESSION_OPEN ∧ handoverFault word = false ∧ unapplied word = 0 := by
  rw [admits, Bool.and_eq_true, beq_iff_eq, beq_iff_eq] at h
  obtain ⟨hflags, hcount⟩ := h
  have h8 : (word &&& FLAGS).getLsbD 8 = SESSION_OPEN.getLsbD 8 := by rw [hflags]
  rw [getLsbD_and, getLsbD_FLAGS] at h8
  refine ⟨?_, ?_, ?_⟩
  · rw [status, ← BitVec.and_assoc, hflags]
    rfl
  · rw [handoverFault_eq]
    simpa using h8.trans (show SESSION_OPEN.getLsbD 8 = false from rfl)
  · rw [unapplied, hcount]
    rfl

end Readings

end NexusOs.Ledger
