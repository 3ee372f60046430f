import NexusOs.Lib.WordField

/-!
# The session word

One 64-bit word holds all restrictions of a host session: the first cause and its tag, the bits
closing, failed, sealed, ready and emergency, and the epoch, which counts emergencies
(`authority/file_session.rs`, `host_session.rs`). `Onward` is the order in which the source's
updates move the word; it is antisymmetric, so a word that was left does not come back.
-/

namespace NexusOs.HostSession

open BitVec hiding not_not

open List

abbrev Word := BitVec 64

namespace Mask

/-- `CLOSING`. -/
def closing : Word := 0x08

/-- `FAILED`. -/
def failed : Word := 0x10

/-- `SEALED`. -/
def sealed : Word := 0x20

/-- `READY`. -/
def ready : Word := 0x40

/-- `EMERGENCY`. -/
def emergency : Word := 0x80

/-- `CAUSE`. -/
def cause : Word := 0x07

end Mask

/-- `EPOCH_STEP`. -/
def epochStep : Word := 0x1000000

/-- `EPOCH_MASK`. -/
def epochMask : Word := ~~~(epochStep - 1)

/-- `HaltCause`. -/
inductive HaltCause where
  | stop
  | emergency
  | timeBudget
  | fence
  deriving DecidableEq

/-- `HaltCause::code`. -/
def HaltCause.code : HaltCause → Word
  | .stop => 1
  | .emergency => 2
  | .timeBudget => 3
  | .fence => 4

/-- `HaltTag`: a client's reason is not zero. -/
inductive HaltTag where
  | ownerStop
  | emergencyStop
  | timeBudget
  | doorHalted
  | client (cause : HaltCause) (reason : { n : BitVec 16 // n ≠ 0 })
  deriving DecidableEq

/-- The cause and the number of a tag. -/
def HaltTag.parts : HaltTag → HaltCause × BitVec 16
  | .ownerStop => (.stop, 0xFFFF)
  | .emergencyStop => (.emergency, 0xFFFE)
  | .timeBudget => (.timeBudget, 0xFFFD)
  | .doorHalted => (.fence, 0xFFFC)
  | .client cause reason => (cause, reason.1)

/-- `HaltTag::bits`. -/
def HaltTag.bits (tag : HaltTag) : Word := tag.parts.1.code ||| (tag.parts.2.setWidth 64 <<< 8)

/-- `saturating_add`. -/
def saturatingAdd (a b : Word) : Word :=
  if a.toNat + b.toNat < 2 ^ 64 then a + b else BitVec.allOnes 64

/-- What `SessionIngress::emergency` makes of a word. -/
def emergencyNext (old : Word) : Word :=
  (old + epochStep) ||| Mask.emergency |||
    (if old &&& Mask.cause = 0 then 2 ||| ((0xFFFE : Word) <<< 8) else 0)

/-- What `Update::Latch` makes of the word of a host cell. -/
def latchNext (bits : Word) (emergency : Bool) (old : Word) : Option Word :=
  if old &&& Mask.sealed ≠ 0 then none
  else
    let epoch :=
      if emergency then saturatingAdd (old &&& epochMask) epochStep &&& epochMask
      else old &&& epochMask
    some (epoch ||| (old &&& ~~~epochMask) ||| (if emergency then Mask.emergency else 0) |||
      (if old &&& Mask.cause = 0 then bits else 0))

/-- What a seal makes of a word. -/
def sealNext (word : Word) : Word := (word ||| Mask.sealed) &&& ~~~Mask.ready

/-- What `finish` makes of a word. -/
def finishNext (success : Bool) (word : Word) : Word :=
  word ||| Mask.sealed ||| Mask.ready ||| (if success then 0 else Mask.failed)

/-! ## Fields -/

/-- The number of emergencies that the word counts: `word / EPOCH_STEP`. -/
def epoch (word : Word) : Nat := word.toNat / 2 ^ 24

/-- The largest epoch. -/
def maxEpoch : Nat := 2 ^ 40 - 1

/-- The first cause and its tag. -/
def intent (word : Word) : Word := word &&& 0xFFFF07

/-- Ready or not before the seal, then ready or not after it. -/
def phase (word : Word) : Nat := 2 * (word.getLsbD 5).toNat + (word.getLsbD 6).toNat

section

variable {w w' : Word}

/-- A mask of one bit tells that bit. -/
theorem and_twoPow_ne_zero (i : Nat) (hi : i < 64) :
    w &&& BitVec.twoPow 64 i ≠ 0 ↔ w.getLsbD i = true := by
  rw [← not_iff_not, not_not]
  constructor
  · intro hzero
    have hbit := congrArg (fun x => x.getLsbD i) hzero
    simpa [hi] using hbit
  · intro hbit
    refine eq_of_getLsbD_eq fun j hj => ?_
    by_cases hij : i = j
    · subst hij
      simp only [getLsbD_and, hbit]
      simp
    · simp [hij]

theorem closing_iff : w &&& Mask.closing ≠ 0 ↔ w.getLsbD 3 = true :=
  and_twoPow_ne_zero 3 (by decide)

theorem failed_iff : w &&& Mask.failed ≠ 0 ↔ w.getLsbD 4 = true := and_twoPow_ne_zero 4 (by decide)

theorem sealed_iff : w &&& Mask.sealed ≠ 0 ↔ w.getLsbD 5 = true := and_twoPow_ne_zero 5 (by decide)

theorem ready_iff : w &&& Mask.ready ≠ 0 ↔ w.getLsbD 6 = true := and_twoPow_ne_zero 6 (by decide)

theorem emergency_iff : w &&& Mask.emergency ≠ 0 ↔ w.getLsbD 7 = true :=
  and_twoPow_ne_zero 7 (by decide)

/-- The epoch is told by the bits from 24 on. -/
theorem epoch_congr (h : ∀ i < 64, 24 ≤ i → w.getLsbD i = w'.getLsbD i) : epoch w = epoch w' := by
  refine Nat.eq_of_testBit_eq fun j => ?_
  rw [epoch, epoch, Nat.testBit_div_two_pow, Nat.testBit_div_two_pow, ← BitVec.getLsbD,
    ← BitVec.getLsbD]
  by_cases hlt : j + 24 < 64
  · exact h (j + 24) hlt (Nat.le_add_left ..)
  · rw [getLsbD_of_ge _ _ (Nat.le_of_not_lt hlt), getLsbD_of_ge _ _ (Nat.le_of_not_lt hlt)]

theorem getLsbD_of_epoch (h : epoch w = epoch w') {i : Nat} (hi : 24 ≤ i) :
    w.getLsbD i = w'.getLsbD i := by
  have hbit := congrArg (fun n => n.testBit (i - 24)) h
  simp only [epoch, Nat.testBit_div_two_pow, Nat.sub_add_cancel hi] at hbit
  exact hbit

theorem getLsbD_intent (i : Nat) :
    (intent w).getLsbD i = (w.getLsbD i && decide (i < 3 ∨ 8 ≤ i ∧ i < 24)) := by
  have hmask : ∀ i : Fin 64,
      (0xFFFF07 : Word).getLsbD i = decide (i.1 < 3 ∨ 8 ≤ i.1 ∧ i.1 < 24) := by decide
  rw [intent, getLsbD_and]
  by_cases hi : i < 64
  · rw [hmask ⟨i, hi⟩]
  · rw [getLsbD_of_ge w i (Nat.le_of_not_lt hi), Bool.false_and, Bool.false_and]

/-- The first cause and its tag are the bits below 3 and those from 8 to 23. -/
theorem intent_eq_iff :
    intent w = intent w' ↔ ∀ i, i < 3 ∨ 8 ≤ i ∧ i < 24 → w.getLsbD i = w'.getLsbD i := by
  constructor
  · intro h i hi
    have hbit := congrArg (fun x => x.getLsbD i) h
    simpa [getLsbD_intent, hi] using hbit
  · intro h
    refine eq_of_getLsbD_eq fun i _ => ?_
    rw [getLsbD_intent, getLsbD_intent]
    by_cases hi : i < 3 ∨ 8 ≤ i ∧ i < 24
    · rw [h i hi]
    · simp [hi]

theorem cause_eq_zero_iff : w &&& Mask.cause = 0 ↔ ∀ i < 3, w.getLsbD i = false := by
  have hmask : ∀ i : Fin 64, Mask.cause.getLsbD i = decide (i.1 < 3) := by decide
  constructor
  · intro h i hi
    have hbit := congrArg (fun x => x.getLsbD i) h
    simpa [hmask ⟨i, by omega⟩, hi] using hbit
  · intro h
    refine eq_of_getLsbD_eq fun i hlt => ?_
    rw [getLsbD_and, hmask ⟨i, hlt⟩]
    by_cases hi : i < 3
    · simp [h i hi]
    · simp [hi]

theorem cause_congr (h : intent w = intent w') : w &&& Mask.cause = 0 ↔ w' &&& Mask.cause = 0 := by
  rw [cause_eq_zero_iff, cause_eq_zero_iff]
  have hbits : ∀ i < 3, w.getLsbD i = w'.getLsbD i := fun i hi => intent_eq_iff.mp h i (.inl hi)
  exact forall₂_congr fun i hi => by rw [hbits i hi]

/-- The largest epoch fills the epoch mask. -/
theorem and_epochMask_of_max (h : epoch w = maxEpoch) : w &&& epochMask = epochMask := by
  have hmask : ∀ i : Fin 64, epochMask.getLsbD i = decide (24 ≤ i.1) := by decide
  refine eq_of_getLsbD_eq fun i hi => ?_
  rw [getLsbD_and, hmask ⟨i, hi⟩]
  by_cases hhigh : 24 ≤ i
  · have hbit := congrArg (fun n => n.testBit (i - 24)) h
    simp only [epoch, maxEpoch, Nat.testBit_div_two_pow, Nat.sub_add_cancel hhigh,
      Nat.testBit_two_pow_sub_one] at hbit
    rw [decide_eq_true (by omega : i - 24 < 40), ← BitVec.getLsbD] at hbit
    simp [hbit]
  · simp [hhigh]

theorem epoch_le_max (w : Word) : epoch w ≤ maxEpoch := by
  simp only [epoch, maxEpoch]
  omega

end

section

variable {w : Word} {i : Nat}

theorem toNat_add_epochStep (h : epoch w < maxEpoch) :
    (w + epochStep).toNat = 2 ^ 24 + w.toNat := by
  rw [toNat_add]
  simp only [epoch, maxEpoch] at h
  have hstep : epochStep.toNat = 2 ^ 24 := by decide
  omega

/-- The next epoch, and nothing else. -/
theorem getLsbD_add_epochStep (h : epoch w < maxEpoch) (hi : i < 24) :
    (w + epochStep).getLsbD i = w.getLsbD i := by
  rw [BitVec.getLsbD, toNat_add_epochStep h, Nat.testBit_two_pow_add_gt hi, BitVec.getLsbD]

theorem epoch_add_epochStep (h : epoch w < maxEpoch) : epoch (w + epochStep) = epoch w + 1 := by
  rw [epoch, toNat_add_epochStep h, epoch, Nat.add_comm, Nat.add_div_right _ (by decide)]

/-- A tag is in the bits of the cause, which are not zero, and of its number. -/
theorem getLsbD_bits (tag : HaltTag) (hi : 3 ≤ i) (hi' : i < 8 ∨ 24 ≤ i) :
    tag.bits.getLsbD i = false := by
  have hcode : tag.parts.1.code.getLsbD i = false := by
    refine WordField.getLsbD_of_lt (n := 3) ?_ hi
    cases tag.parts.1 <;> decide
  rw [HaltTag.bits, getLsbD_or, hcode, getLsbD_shiftLeft]
  rcases hi' with hlow | hhigh
  · simp [hlow]
  · rw [getLsbD_setWidth, getLsbD_of_ge _ (i - 8) (by omega)]
    simp

theorem bits_cause (tag : HaltTag) : tag.bits &&& Mask.cause ≠ 0 := by
  intro h
  have hlow := cause_eq_zero_iff.mp h
  have hcode : ∀ i < 3, tag.parts.1.code.getLsbD i = false := by
    intro i hi
    have hbit := hlow i hi
    rw [HaltTag.bits, getLsbD_or, Bool.or_eq_false_iff] at hbit
    exact hbit.1
  have hzero : tag.parts.1.code &&& Mask.cause = 0 := cause_eq_zero_iff.mpr hcode
  revert hzero
  cases tag.parts.1 <;> decide

end

/-! ## The order of the words -/

/-- The word moves on: the bits closing, failed, sealed and emergency stay, the first cause and
its tag are set once and together, and the epoch and the phase do not fall. -/
structure Onward (w w' : Word) : Prop where
  flags : ∀ i ∈ [3, 4, 5, 7], w.getLsbD i = true → w'.getLsbD i = true
  intent : intent w' = intent w ∨ w &&& Mask.cause = 0 ∧ w' &&& Mask.cause ≠ 0
  epoch : epoch w ≤ epoch w'
  phase : phase w ≤ phase w'

namespace Onward

variable {w w' w'' : Word}

theorem refl (w : Word) : Onward w w where
  flags _ _ h := h
  intent := .inl rfl
  epoch := Nat.le_refl _
  phase := Nat.le_refl _

theorem trans (h : Onward w w') (h' : Onward w' w'') : Onward w w'' where
  flags i hi hbit := h'.flags i hi (h.flags i hi hbit)
  intent := by
    rcases h.intent with heq | ⟨hnone, hset⟩
    · rcases h'.intent with heq' | ⟨hnone', hset'⟩
      · exact .inl (heq'.trans heq)
      · exact .inr ⟨(cause_congr heq).mp hnone', hset'⟩
    · rcases h'.intent with heq' | ⟨hnone', -⟩
      · exact .inr ⟨hnone, fun hzero => hset ((cause_congr heq').mp hzero)⟩
      · exact absurd hnone' hset
  epoch := Nat.le_trans h.epoch h'.epoch
  phase := Nat.le_trans h.phase h'.phase

/-- A word that moved on does not come back. -/
theorem antisymm (h : Onward w w') (h' : Onward w' w) : w = w' := by
  have hflags : ∀ i ∈ [3, 4, 5, 7], w.getLsbD i = w'.getLsbD i := fun i hi =>
    Bool.eq_iff_iff.mpr ⟨h.flags i hi, h'.flags i hi⟩
  have hintent : HostSession.intent w = HostSession.intent w' := by
    rcases h.intent with heq | ⟨hnone, hset⟩
    · exact heq.symm
    · rcases h'.intent with heq | ⟨hnone', -⟩
      · exact heq
      · exact absurd hnone' hset
  have hready : w.getLsbD 6 = w'.getLsbD 6 := by
    have hphase := Nat.le_antisymm h.phase h'.phase
    simp only [HostSession.phase] at hphase
    cases hw : w.getLsbD 6 <;> cases hw' : w'.getLsbD 6 <;> simp_all
  refine eq_of_getLsbD_eq fun i _ => ?_
  by_cases hhigh : 24 ≤ i
  · exact getLsbD_of_epoch (Nat.le_antisymm h.epoch h'.epoch) hhigh
  by_cases hmask : i < 3 ∨ 8 ≤ i ∧ i < 24
  · exact intent_eq_iff.mp hintent i hmask
  obtain rfl | rfl | rfl | rfl | rfl : i = 3 ∨ i = 4 ∨ i = 5 ∨ i = 6 ∨ i = 7 := by omega
  · exact hflags 3 (by decide)
  · exact hflags 4 (by decide)
  · exact hflags 5 (by decide)
  · exact hready
  · exact hflags 7 (by decide)

end Onward

section

variable {w : Word} (success : Bool) {k : Nat}

theorem getLsbD_or_twoPow {i : Nat} (h : i ≠ k) :
    (w ||| BitVec.twoPow 64 k).getLsbD i = w.getLsbD i := by
  simp [h.symm]

/-- Setting a flag leaves the cause and its tag. -/
theorem intent_or (hk : 3 ≤ k ∧ k < 8) : intent (w ||| BitVec.twoPow 64 k) = intent w :=
  intent_eq_iff.mpr fun _ hi => getLsbD_or_twoPow (by omega)

/-- Setting a flag leaves the epoch. -/
theorem epoch_or (hk : k < 24) : epoch (w ||| BitVec.twoPow 64 k) = epoch w :=
  epoch_congr fun _ _ hi => getLsbD_or_twoPow (by omega)

/-- Setting the bit closing, failed or emergency. -/
theorem onward_or (hk : k = 3 ∨ k = 4 ∨ k = 7) : Onward w (w ||| BitVec.twoPow 64 k) where
  flags i _ h := by simp [h]
  intent := .inl (intent_or (by omega))
  epoch := Nat.le_of_eq (epoch_or (by omega)).symm
  phase := by rw [phase, phase, getLsbD_or_twoPow (by omega), getLsbD_or_twoPow (by omega)]

theorem getLsbD_sealNext (i : Nat) (hi : i < 64) :
    (sealNext w).getLsbD i = if i = 5 then true else if i = 6 then false else w.getLsbD i := by
  have hsealed : ∀ i : Fin 64, Mask.sealed.getLsbD i = decide (i.1 = 5) := by decide
  have hready : ∀ i : Fin 64, Mask.ready.getLsbD i = decide (i.1 = 6) := by decide
  rw [sealNext, getLsbD_and, getLsbD_or, getLsbD_not, hsealed ⟨i, hi⟩, hready ⟨i, hi⟩]
  by_cases h5 : i = 5
  · simp [h5]
  · by_cases h6 : i = 6
    · simp [h6]
    · simp [h5, h6, hi]

theorem getLsbD_finishNext (i : Nat) (hi : i < 64) :
    (finishNext success w).getLsbD i =
      (w.getLsbD i || decide (i = 5 ∨ i = 6 ∨ i = 4 ∧ success = false)) := by
  have hsealed : ∀ i : Fin 64, Mask.sealed.getLsbD i = decide (i.1 = 5) := by decide
  have hready : ∀ i : Fin 64, Mask.ready.getLsbD i = decide (i.1 = 6) := by decide
  have hfailed : ∀ i : Fin 64, Mask.failed.getLsbD i = decide (i.1 = 4) := by decide
  cases success with
  | true => simp [finishNext, hsealed ⟨i, hi⟩, hready ⟨i, hi⟩, Bool.or_assoc]
  | false => simp [finishNext, hsealed ⟨i, hi⟩, hready ⟨i, hi⟩, hfailed ⟨i, hi⟩, Bool.or_assoc]

theorem epoch_sealNext : epoch (sealNext w) = epoch w :=
  epoch_congr fun i hlt _ => by rw [getLsbD_sealNext i hlt, if_neg (by omega), if_neg (by omega)]

theorem intent_sealNext : intent (sealNext w) = intent w :=
  intent_eq_iff.mpr fun i hi => by
    rw [getLsbD_sealNext i (by omega), if_neg (by omega), if_neg (by omega)]

theorem epoch_finishNext : epoch (finishNext success w) = epoch w :=
  epoch_congr fun i hlt _ => by
    rw [getLsbD_finishNext success i hlt, decide_eq_false (by omega), Bool.or_false]

theorem intent_finishNext : intent (finishNext success w) = intent w :=
  intent_eq_iff.mpr fun i hi => by
    rw [getLsbD_finishNext success i (by omega), decide_eq_false (by omega), Bool.or_false]

theorem onward_seal (h : w &&& Mask.sealed = 0) : Onward w (sealNext w) where
  flags i hi hbit := by
    simp only [mem_cons, not_mem_nil, or_false] at hi
    rw [getLsbD_sealNext i (by omega)]
    obtain rfl | rfl | rfl | rfl := hi <;> simp [hbit]
  intent := .inl intent_sealNext
  epoch := Nat.le_of_eq epoch_sealNext.symm
  phase := by
    have h5 : w.getLsbD 5 = false := by simpa using (not_congr sealed_iff).mp (not_not.mpr h)
    rw [phase, phase, getLsbD_sealNext 5 (by decide), getLsbD_sealNext 6 (by decide), h5]
    cases w.getLsbD 6 <;> decide

theorem onward_finish : Onward w (finishNext success w) where
  flags i hi hbit := by
    simp only [mem_cons, not_mem_nil, or_false] at hi
    rw [getLsbD_finishNext success i (by omega), hbit, Bool.true_or]
  intent := .inl (intent_finishNext success)
  epoch := Nat.le_of_eq (epoch_finishNext success).symm
  phase := by
    rw [phase, phase, getLsbD_finishNext success 5 (by decide),
      getLsbD_finishNext success 6 (by decide)]
    cases w.getLsbD 5 <;> cases w.getLsbD 6 <;> simp

theorem onward_ready : Onward 0 Mask.ready := ⟨by decide, .inl (by decide), by decide, by decide⟩

end

/-! ## Engaging a cause -/

/-- What engaging a cause makes of a word: the cause and its tag are set if there was none; an
emergency sets its bit and counts in the epoch. -/
structure Engages (tag : HaltTag) (emergency : Bool) (w w' : Word) : Prop where
  low : ∀ i < 24, w'.getLsbD i = (w.getLsbD i || (emergency && decide (i = 7)) ||
    (decide (w &&& Mask.cause = 0) && tag.bits.getLsbD i))
  epoch : epoch w' = if emergency then min (epoch w + 1) maxEpoch else epoch w

section

variable {w w' : Word} {tag : HaltTag} {emergency : Bool}

theorem getLsbD_ite (c : Prop) [Decidable c] (v : Word) (i : Nat) :
    (if c then v else 0).getLsbD i = (decide c && v.getLsbD i) := by
  by_cases hc : c
  · rw [if_pos hc, decide_eq_true hc, Bool.true_and]
  · rw [if_neg hc, decide_eq_false hc]
    exact getLsbD_zero

theorem getLsbD_emergencyMask (i : Nat) : Mask.emergency.getLsbD i = decide (i = 7) := by
  have hmask : ∀ i : Fin 64, Mask.emergency.getLsbD i = decide (i.1 = 7) := by decide
  by_cases hi : i < 64
  · exact hmask ⟨i, hi⟩
  · rw [getLsbD_of_ge _ _ (Nat.le_of_not_lt hi), decide_eq_false (by omega)]

theorem getLsbD_epochMask {i : Nat} (hi : i < 64) : epochMask.getLsbD i = decide (24 ≤ i) := by
  have hmask : ∀ i : Fin 64, epochMask.getLsbD i = decide (24 ≤ i.1) := by decide
  exact hmask ⟨i, hi⟩

/-- `SessionIngress::emergency` engages the emergency stop. -/
theorem engages_emergencyNext (h : epoch w < maxEpoch) :
    Engages .emergencyStop true w (emergencyNext w) := by
  have htag : (2 ||| ((0xFFFE : Word) <<< 8)) = HaltTag.emergencyStop.bits := by decide
  constructor
  · intro i hi
    rw [emergencyNext, htag, getLsbD_or, getLsbD_or, getLsbD_add_epochStep h hi,
      getLsbD_emergencyMask, getLsbD_ite, Bool.true_and]
  · have hepoch : epoch (emergencyNext w) = epoch (w + epochStep) := by
      refine epoch_congr fun i _ hi => ?_
      have hbits : HaltTag.emergencyStop.bits.getLsbD i = false :=
        getLsbD_bits _ (by omega) (.inr hi)
      rw [emergencyNext, htag, getLsbD_or, getLsbD_or, getLsbD_emergencyMask,
        decide_eq_false (by omega), getLsbD_ite, hbits, Bool.and_false, Bool.or_false,
        Bool.or_false]
    rw [hepoch, epoch_add_epochStep h, if_pos rfl, Nat.min_eq_left h]

theorem epoch_and_epochMask (w : Word) : epoch (w &&& epochMask) = epoch w :=
  epoch_congr fun i hlt hi => by simp [getLsbD_epochMask hlt, hi]

/-- The epoch part of a word, raised until its maximum. -/
theorem epoch_saturatingAdd (w : Word) :
    epoch (saturatingAdd (w &&& epochMask) epochStep &&& epochMask) =
      min (epoch w + 1) maxEpoch := by
  rw [epoch_and_epochMask, saturatingAdd]
  have hw := epoch_and_epochMask w
  rcases Nat.lt_or_ge (epoch w) maxEpoch with hlt | hge
  · have hadd := toNat_add_epochStep (hw.trans_lt hlt)
    have hnat : (w &&& epochMask).toNat + epochStep.toNat < 2 ^ 64 := by
      have hstep : epochStep.toNat = 2 ^ 24 := by decide
      omega
    rw [if_pos hnat, epoch_add_epochStep (hw.trans_lt hlt), hw, Nat.min_eq_left hlt]
  · have hfull : w &&& epochMask = epochMask :=
      and_epochMask_of_max (Nat.le_antisymm (epoch_le_max w) hge)
    rw [hfull, Nat.min_eq_right (Nat.le_succ_of_le hge)]
    decide

/-- `Update::Latch` engages its cause. -/
theorem engages_latchNext (h : latchNext tag.bits emergency w = some w') :
    w &&& Mask.sealed = 0 ∧ Engages tag emergency w w' := by
  rw [latchNext] at h
  split at h
  · cases h
  rename_i hsealed
  refine ⟨not_not.mp hsealed, ?_⟩
  obtain rfl := Option.some.inj h
  have hpart : ∀ i < 24, (if emergency = true then
      saturatingAdd (w &&& epochMask) epochStep &&& epochMask
      else w &&& epochMask).getLsbD i = false := by
    intro i hi
    have hmask := getLsbD_epochMask (i := i) (by omega)
    rw [decide_eq_false (by omega)] at hmask
    split <;> simp [hmask]
  constructor
  · intro i hi
    have hmask := getLsbD_epochMask (i := i) (by omega)
    rw [decide_eq_false (by omega)] at hmask
    rw [getLsbD_or, getLsbD_or, getLsbD_or, hpart i hi, getLsbD_and, getLsbD_not, hmask,
      getLsbD_ite, getLsbD_ite, getLsbD_emergencyMask, decide_eq_true (by omega : i < 64)]
    simp
  · have hrest : ∀ (v : Word), epoch (v ||| (w &&& ~~~epochMask) |||
        (if emergency = true then Mask.emergency else 0) |||
        (if w &&& Mask.cause = 0 then tag.bits else 0)) = epoch v := by
      intro v
      refine epoch_congr fun i hlt hi => ?_
      have hbits : tag.bits.getLsbD i = false := getLsbD_bits tag (by omega) (.inr hi)
      have hemergency : Mask.emergency.getLsbD i = false := by
        rw [getLsbD_emergencyMask, decide_eq_false (by omega)]
      have hmask := getLsbD_epochMask hlt
      rw [decide_eq_true hi] at hmask
      rw [getLsbD_or, getLsbD_or, getLsbD_or, getLsbD_and,
        getLsbD_not, hmask, getLsbD_ite, getLsbD_ite, hbits, hemergency]
      simp
    rw [hrest]
    cases emergency with
    | true => exact epoch_saturatingAdd w
    | false => exact epoch_and_epochMask w

namespace Engages

theorem bit (h : Engages tag emergency w w') {i : Nat} (hlow : 3 ≤ i) (hi : i < 8) (hne : i ≠ 7) :
    w'.getLsbD i = w.getLsbD i := by
  rw [h.low i (by omega), getLsbD_bits tag hlow (.inl hi), decide_eq_false hne, Bool.and_false,
    Bool.and_false, Bool.or_false, Bool.or_false]

theorem emergency_set (h : Engages tag true w w') : w'.getLsbD 7 = true := by
  rw [h.low 7 (by decide)]
  simp

variable (h : Engages tag emergency w w')

include h

/-- A cause that is there stays, with its tag. -/
theorem intent_same (hcause : w &&& Mask.cause ≠ 0) : intent w' = intent w :=
  intent_eq_iff.mpr fun i hi => by
    rw [h.low i (by omega), decide_eq_false hcause, decide_eq_false (by omega : i ≠ 7),
      Bool.and_false, Bool.false_and, Bool.or_false, Bool.or_false]

/-- The first cause is set together with its tag. -/
theorem intent_set (hcause : w &&& Mask.cause = 0) (hintent : intent w = 0) :
    intent w' = tag.bits := by
  refine eq_of_getLsbD_eq fun i _ => ?_
  have hold : ∀ i, i < 3 ∨ 8 ≤ i ∧ i < 24 → w.getLsbD i = false := fun i hi => by
    have hbit := congrArg (fun x => x.getLsbD i) hintent
    simpa [getLsbD_intent, hi] using hbit
  rw [getLsbD_intent]
  by_cases hi : i < 3 ∨ 8 ≤ i ∧ i < 24
  · rw [h.low i (by omega), hold i hi, decide_eq_true hcause, decide_eq_true hi,
      decide_eq_false (by omega : i ≠ 7)]
    simp
  · rw [decide_eq_false hi, Bool.and_false, getLsbD_bits tag (by omega) (by omega)]

theorem cause_set : w' &&& Mask.cause ≠ 0 := by
  intro hzero
  have hlow := cause_eq_zero_iff.mp hzero
  have hbits : ∀ i < 3, w.getLsbD i = false ∧
      (decide (w &&& Mask.cause = 0) && tag.bits.getLsbD i) = false := by
    intro i hi
    have hbit := hlow i hi
    rw [h.low i (by omega), Bool.or_eq_false_iff, Bool.or_eq_false_iff] at hbit
    exact ⟨hbit.1.1, hbit.2⟩
  have hnone : w &&& Mask.cause = 0 := cause_eq_zero_iff.mpr fun i hi => (hbits i hi).1
  refine bits_cause tag (cause_eq_zero_iff.mpr fun i hi => ?_)
  have hbit := (hbits i hi).2
  rwa [decide_eq_true hnone] at hbit

theorem onward : Onward w w' where
  flags i hi hbit := by
    simp only [mem_cons, not_mem_nil, or_false] at hi
    rw [h.low i (by omega), hbit, Bool.true_or, Bool.true_or]
  intent := by
    by_cases hcause : w &&& Mask.cause = 0
    · exact .inr ⟨hcause, h.cause_set⟩
    · exact .inl (h.intent_same hcause)
  epoch := by
    rw [h.epoch]
    have hmax := epoch_le_max w
    split <;> omega
  phase := by
    rw [phase, phase, h.bit (by decide) (by decide) (by decide),
      h.bit (by decide) (by decide) (by decide)]

end Engages

end

end NexusOs.HostSession
