import NexusOs.HostSession.Honoured

/-!
# The session word never comes back

Every step of every interleaving moves the word on (`step_onward`), and an exchange is always one
of the updates of its kind, by a call that was given the scope it admits (`step_exchanged`).
-/

namespace NexusOs.HostSession

open Utf8 Evidence Threads Transition List

/-! ## Steps of a run -/

/-- The word of a state. -/
abbrev wordOf (s : State) : Word := s.now.shared.word

variable {why : Change} {old new : Word} {before after : List Event} {x y : State} {e : Event}

/-- An update moves the word on. -/
theorem Change.Allowed.onward (h : why.Allowed old new) : Onward old new := by
  cases why with
  | emergency => exact h.2.2 ▸ (engages_emergencyNext h.2.1).onward
  | fail => exact h.2.2 ▸ onward_or (k := 4) (by decide)
  | close => exact h.2.2 ▸ onward_or (k := 3) (by decide)
  | latch tag urgent => exact (engages_latchNext h).2.onward
  | ready => exact h.1 ▸ h.2 ▸ onward_ready
  | admission | register => exact h.1 ▸ .refl _
  | sealing =>
    have hsealed : old &&& Mask.sealed = 0 := by
      have hmask := h.1
      rw [BitVec.and_or_distrib_left] at hmask
      exact (BitVec.or_eq_zero_iff.mp hmask).2
    exact h.2 ▸ onward_seal hsealed
  | finish success => exact h ▸ onward_finish success

/-- A step that does not exchange the word leaves it. -/
theorem step_word (h : Step machine x e y) :
    wordOf y = wordOf x ∨ ∃ why, Exchanged why (wordOf x) (wordOf y) e := by
  cases h with
  | call hbegins => exact .inl (begins_word hbegins)
  | @ret t c result shared hcall hdelivers => exact .inl (delivers_word (c := c) hdelivers)
  | @act t op a next r shared hcall hperforms =>
    obtain ⟨hallows, rfl⟩ := hperforms
    have hword := effect_word t x.now.shared a r
    cases a with
    | exchange why old new =>
      cases r with
      | ok =>
        cases hallows
        exact .inr ⟨why, t, rfl⟩
      | error => exact .inl hword
    | _ => exact .inl hword

/-- A cause that is set stays. -/
theorem Onward.cause {w w' : Word} (h : Onward w w') (hcause : w &&& Mask.cause ≠ 0) :
    w' &&& Mask.cause ≠ 0 := by
  rcases h.intent with heq | ⟨hnone, -⟩
  · exact fun hzero => hcause ((cause_congr heq).mp hzero)
  · exact absurd hnone hcause

/-- A bit of a masked word. -/
theorem bit_of_and {w mask value : Word} (h : w &&& mask = value) {i : Nat}
    (hmask : mask.getLsbD i = true) : w.getLsbD i = value.getLsbD i := by
  rw [← h, BitVec.getLsbD_and, hmask, Bool.and_true]

/-- The snapshot of a scope that fits: no failure, seal or emergency; but for a close, no closing;
for the bootstrap and for work, no cause. -/
theorem RequestScope.fits_bits {scope : RequestScope} (h : scope.fits = true) :
    (∀ i ∈ [4, 5, 7], scope.snapshot.getLsbD i = false) ∧
      (scope.kind ≠ .closeCleanup → scope.snapshot.getLsbD 3 = false) ∧
      (scope.kind = .bootstrap ∨ scope.kind = .work → scope.snapshot &&& Mask.cause = 0) := by
  rw [RequestScope.fits, Bool.and_eq_true, beq_iff_eq] at h
  obtain ⟨hrestricted, hkind⟩ := h
  refine ⟨fun i hi => ?_, fun hclose => ?_, fun hwork => ?_⟩
  · refine (bit_of_and hrestricted ?_).trans BitVec.getLsbD_zero
    simp only [mem_cons, not_mem_nil, or_false] at hi
    obtain rfl | rfl | rfl := hi <;> decide
  · cases hk : scope.kind with
    | closeCleanup => exact absurd hk hclose
    | bootstrap | work | restoration =>
      rw [hk] at hkind
      exact (bit_of_and (beq_iff_eq.mp hkind) (i := 3) (by decide)).trans (by decide)
  · refine cause_eq_zero_iff.mpr fun i hi => ?_
    obtain rfl | rfl | rfl : i = 0 ∨ i = 1 ∨ i = 2 := by omega
    all_goals
      rcases hwork with hk | hk <;> rw [hk] at hkind <;>
        exact (bit_of_and (beq_iff_eq.mp hkind) (by decide)).trans (by decide)

section

variable (hx : SessionRun before x) (h : Step machine x e y)

include hx h

theorem step_exchanged (he : Exchanged why old new e) :
    wordOf x = old ∧ wordOf y = new ∧ why.Allowed old new ∧
      ∀ number scope, why = .admission number scope → x.now.shared.scope? number = some scope := by
  obtain ⟨t, rfl⟩ := he
  obtain ⟨hallowed, hpromised⟩ := (step_closeGuar hx h).promise
  cases h with
  | act hcall hperforms =>
    obtain ⟨hallows, rfl⟩ := hperforms
    refine ⟨hallows, rfl, hallowed, ?_⟩
    rintro number scope rfl
    exact hpromised

/-- A step leaves the word or makes an update that is allowed. -/
theorem step_moves : wordOf y = wordOf x ∨ ∃ why, Exchanged why (wordOf x) (wordOf y) e ∧
    why.Allowed (wordOf x) (wordOf y) :=
  (step_word h).imp_right fun ⟨why, he⟩ => ⟨why, he, (step_exchanged hx h he).2.2.1⟩

/-- A step moves the word on. -/
theorem step_onward : Onward (wordOf x) (wordOf y) := by
  rcases step_moves hx h with heq | ⟨why, -, hallowed⟩
  · rw [heq]
    exact .refl _
  · exact hallowed.onward

omit h in
/-- A run moves the word on. -/
theorem run_onward (hrun : Run (Step machine) x after y) : Onward (wordOf x) (wordOf y) := by
  induction hrun generalizing before with
  | nil => exact .refl _
  | cons hstep _ ih => exact (step_onward hx hstep).trans (ih (hx.append (.single hstep)))

/-! ## What happened -/

/-- An emergency, on the ingress or on a cell. -/
def Emergency (e : Event) : Prop :=
  ∃ old new, Exchanged .emergency old new e ∨ ∃ tag, Exchanged (.latch tag true) old new e

/-- A failure, or a close that did not succeed. -/
def Failure (e : Event) : Prop :=
  ∃ old new, Exchanged .fail old new e ∨ Exchanged (.finish false) old new e

def Closing (e : Event) : Prop := ∃ old new, Exchanged .close old new e

/-- An engagement of a cause, the first or a later one. -/
def Engagement (e : Event) : Prop :=
  Emergency e ∨ ∃ old new tag, Exchanged (.latch tag false) old new e

/-- The engagement that set the cause. -/
def FirstEngagement (e : Event) : Prop :=
  ∃ why old new, Exchanged why old new e ∧ old &&& Mask.cause = 0 ∧ new &&& Mask.cause ≠ 0

/-- What happened shows in the bits of the word. -/
def Shows (e : Event) (w : Word) : Prop :=
  (Emergency e → w.getLsbD 7 = true) ∧ (Failure e → w.getLsbD 4 = true) ∧
    (Closing e → w.getLsbD 3 = true) ∧ (Sealing e → w.getLsbD 5 = true) ∧
    (Engagement e → w &&& Mask.cause ≠ 0)

/-- An engagement engages a tag. -/
theorem step_engages (he : Engagement e) :
    ∃ tag urgent, Engages tag urgent (wordOf x) (wordOf y) ∧ (Emergency e → urgent = true) := by
  rcases he with ⟨old, new, he | ⟨tag, he⟩⟩ | ⟨old, new, tag, he⟩
  · obtain ⟨rfl, rfl, hallowed, -⟩ := step_exchanged hx h he
    exact ⟨.emergencyStop, true, hallowed.2.2 ▸ engages_emergencyNext hallowed.2.1, fun _ => rfl⟩
  · obtain ⟨rfl, rfl, hallowed, -⟩ := step_exchanged hx h he
    exact ⟨tag, true, (engages_latchNext hallowed).2, fun _ => rfl⟩
  obtain ⟨rfl, rfl, hallowed, -⟩ := step_exchanged hx h he
  refine ⟨tag, false, (engages_latchNext hallowed).2, ?_⟩
  obtain ⟨t, rfl⟩ := he
  rintro ⟨old, new, ⟨t', heq⟩ | ⟨tag', t', heq⟩⟩ <;> cases heq

theorem step_shows : Shows e (wordOf y) := by
  refine ⟨fun he => ?_, fun he => ?_, fun he => ?_, fun he => ?_, fun he => ?_⟩
  · obtain ⟨tag, urgent, hengages, hurgent⟩ := step_engages hx h (.inl he)
    obtain rfl := hurgent he
    exact hengages.emergency_set
  · obtain ⟨old, new, he | he⟩ := he
    · obtain ⟨-, hy, hallowed, -⟩ := step_exchanged hx h he
      rw [hy, hallowed.2.2, BitVec.getLsbD_or]
      exact Bool.or_eq_true_iff.mpr (.inr (by decide))
    · obtain ⟨-, hy, hallowed, -⟩ := step_exchanged hx h he
      rw [hy, hallowed, getLsbD_finishNext false 4 (by decide)]
      simp
  · obtain ⟨old, new, he⟩ := he
    obtain ⟨-, hy, hallowed, -⟩ := step_exchanged hx h he
    rw [hy, hallowed.2.2, BitVec.getLsbD_or]
    exact Bool.or_eq_true_iff.mpr (.inr (by decide))
  · obtain ⟨old, new, he⟩ := he
    obtain ⟨-, hy, hallowed, -⟩ := step_exchanged hx h he
    rw [hy, hallowed.2, getLsbD_sealNext 5 (by decide)]
    simp
  · obtain ⟨tag, urgent, hengages, -⟩ := step_engages hx h he
    exact hengages.cause_set

omit h in
/-- What happened in a run shows in the bits of its last word. -/
theorem run_shows (he : e ∈ before) : Shows e (wordOf x) := by
  obtain ⟨pre, post, source, target, rfl, hpre, hstep, hpost⟩ := Run.of_mem hx he
  have honward := run_onward (hpre.append (.single hstep)) hpost
  obtain ⟨hemergency, hfailure, hclosing, hsealing, hengagement⟩ := step_shows hpre hstep
  exact ⟨fun h => honward.flags 7 (by decide) (hemergency h),
    fun h => honward.flags 4 (by decide) (hfailure h),
    fun h => honward.flags 3 (by decide) (hclosing h),
    fun h => honward.flags 5 (by decide) (hsealing h), fun h => honward.cause (hengagement h)⟩

omit h in
/-- While there is no cause there is no tag. -/
theorem run_intent : wordOf x &&& Mask.cause = 0 → intent (wordOf x) = 0 := by
  have hall : ∀ {after : List Event} {first last : State} {before : List Event},
      SessionRun before first → Run (Step machine) first after last →
      (wordOf first &&& Mask.cause = 0 → intent (wordOf first) = 0) →
      wordOf last &&& Mask.cause = 0 → intent (wordOf last) = 0 := by
    intro after first last before hfirst hrun hinit
    induction hrun generalizing before with
    | nil => exact hinit
    | @cons first middle last e _ hstep _ ih =>
      refine ih (hfirst.append (.single hstep)) fun hnone => ?_
      rcases (step_onward hfirst hstep).intent with heq | ⟨-, hset⟩
      · rw [heq]
        exact hinit ((cause_congr heq).mp hnone)
      · exact absurd hnone hset
  exact hall (.nil _) hx fun _ => by decide

/-! ## Admission -/

variable {number : Nat} {scope : RequestScope}

/-- An admission that is not for closing finds the word that its request read. -/
theorem admitted_snapshot (he : Exchanged (.admission number scope) old new e)
    (hkind : scope.kind ≠ .closeCleanup) : wordOf x = scope.snapshot := by
  obtain ⟨rfl, -, hallowed, -⟩ := step_exchanged hx h he
  have hsame := hallowed.2.1
  rw [RequestScope.same] at hsame
  split at hsame
  · rename_i hclose
    exact absurd hclose hkind
  · exact beq_iff_eq.mp hsame

/-- Since the request of an admission read the word, no cause was set. -/
theorem admitted_since (he : Exchanged (.admission number scope) old new e)
    (hkind : scope.kind ≠ .closeCleanup) :
    number = 0 ∧ scope = bootstrapScope ∨
      ∃ t pre mid post, before =
          pre ++ .act t .load scope.snapshot :: (mid ++ .act t (.newScope scope) number :: post) ∧
        ∀ e' ∈ mid ++ .act t (.newScope scope) number :: post, ¬FirstEngagement e' := by
  have hscope := (step_exchanged hx h he).2.2.2 number scope rfl
  have hword := admitted_snapshot hx h he hkind
  have hissued := (run_closeInv hx).issued hscope hkind
  rw [events_eq hx] at hissued
  refine hissued.imp_right ?_
  rintro ⟨t, pre, mid, post, rfl⟩
  refine ⟨t, pre, mid, post, rfl, fun e' he' hfirst => ?_⟩
  obtain ⟨start, hpre, hrest⟩ := Run.append_iff.mp hx
  obtain ⟨read, hload, hrest⟩ := Run.cons_iff.mp hrest
  have hread : SessionRun _ read := hpre.append (.single hload)
  have hsnapshot : wordOf read = scope.snapshot := by
    cases hload with
    | act hcall hperforms =>
      obtain ⟨hallows, rfl⟩ := hperforms
      exact hallows.symm
  -- The word is the snapshot at both ends, so it is the snapshot all the time between.
  obtain ⟨pre', post', source, target, -, hsource, hstep, htarget⟩ := Run.of_mem hrest he'
  have hsource' := hread.append hsource
  have hbefore := run_onward hread hsource
  have hat := step_onward hsource' hstep
  have hafter := run_onward (hsource'.append (.single hstep)) htarget
  rw [hsnapshot] at hbefore
  rw [hword] at hafter
  obtain ⟨why, old', new', hexchanged, hnone, hset⟩ := hfirst
  obtain ⟨rfl, rfl, -⟩ := step_exchanged hsource' hstep hexchanged
  have hsame := hbefore.antisymm (hat.trans hafter)
  have hsame' := (hbefore.trans hat).antisymm hafter
  rw [← hsame', hsame] at hset
  exact hset hnone

/-- The epoch counts emergencies, and nothing else. -/
theorem step_epoch :
    (Emergency e → epoch (wordOf y) = min (epoch (wordOf x) + 1) maxEpoch) ∧
      (¬Emergency e → epoch (wordOf y) = epoch (wordOf x)) := by
  refine ⟨fun he => ?_, fun he => ?_⟩
  · obtain ⟨tag, urgent, hengages, hurgent⟩ := step_engages hx h (.inl he)
    rw [hengages.epoch, if_pos (hurgent he)]
  rcases step_moves hx h with heq | ⟨why, hexchanged, hallowed⟩
  · rw [heq]
  cases why with
  | emergency => exact absurd ⟨_, _, .inl hexchanged⟩ he
  | fail => exact hallowed.2.2 ▸ epoch_or (k := 4) (by decide)
  | close => exact hallowed.2.2 ▸ epoch_or (k := 3) (by decide)
  | latch tag urgent =>
    cases urgent with
    | true => exact absurd ⟨_, _, .inr ⟨tag, hexchanged⟩⟩ he
    | false => simpa using (engages_latchNext hallowed).2.epoch
  | ready =>
    rw [hallowed.1, hallowed.2]
    decide
  | admission | register => rw [hallowed.1]
  | sealing => exact hallowed.2 ▸ epoch_sealNext
  | finish success => exact hallowed ▸ epoch_finishNext success

/-- The cause that a step sets has the tag of its engagement. -/
theorem step_intent (hnone : wordOf x &&& Mask.cause = 0) (hset : wordOf y &&& Mask.cause ≠ 0) :
    ∃ tag : HaltTag, intent (wordOf y) = tag.bits := by
  have hengagement : Engagement e := by
    rcases step_moves hx h with heq | ⟨why, hexchanged, hallowed⟩
    · rw [heq] at hset
      exact absurd hnone hset
    have hkeeps : intent (wordOf y) ≠ intent (wordOf x) := fun heq =>
      hset ((cause_congr heq).mpr hnone)
    cases why with
    | emergency => exact .inl ⟨_, _, .inl hexchanged⟩
    | latch tag urgent =>
      cases urgent with
      | true => exact .inl ⟨_, _, .inr ⟨tag, hexchanged⟩⟩
      | false => exact .inr ⟨_, _, tag, hexchanged⟩
    | fail => exact absurd (hallowed.2.2 ▸ intent_or (k := 4) (by decide)) hkeeps
    | close => exact absurd (hallowed.2.2 ▸ intent_or (k := 3) (by decide)) hkeeps
    | ready => exact absurd (by rw [hallowed.1, hallowed.2]; decide) hkeeps
    | admission | register => exact absurd (by rw [hallowed.1]) hkeeps
    | sealing => exact absurd (hallowed.2 ▸ intent_sealNext) hkeeps
    | finish success => exact absurd (hallowed ▸ intent_finishNext success) hkeeps
  obtain ⟨tag, urgent, hengages, -⟩ := step_engages hx h hengagement
  exact ⟨tag, hengages.intent_set hnone (run_intent hx hnone)⟩

/-- What a sealed word allows. -/
theorem step_sealed (hsealed : wordOf x &&& Mask.sealed ≠ 0) (hne : wordOf y ≠ wordOf x) :
    ∃ success old new, Exchanged (.finish success) old new e := by
  rcases step_moves hx h with heq | ⟨why, hexchanged, hallowed⟩
  · exact absurd heq hne
  cases why with
  | emergency | fail | close => exact absurd hallowed.1 hsealed
  | latch tag urgent => exact absurd (engages_latchNext hallowed).1 hsealed
  | ready =>
    rw [hallowed.1] at hsealed
    exact absurd (by decide) hsealed
  | admission | register => exact absurd hallowed.1 hne
  | sealing =>
    have hmask := hallowed.1
    rw [BitVec.and_or_distrib_left] at hmask
    exact absurd (BitVec.or_eq_zero_iff.mp hmask).2 hsealed
  | finish success => exact ⟨success, _, _, hexchanged⟩

/-- What happened before an admission. -/
theorem admitted_before (he : Exchanged (.admission number scope) old new e) :
    ∀ e' ∈ before, ¬Emergency e' ∧ ¬Failure e' ∧ ¬Sealing e' ∧
      (scope.kind ≠ .closeCleanup → ¬Closing e') ∧
      (scope.kind = .bootstrap ∨ scope.kind = .work → ¬Engagement e') := by
  intro e' he'
  obtain ⟨hemergency, hfailure, hclosing, hsealing, hengagement⟩ := run_shows hx he'
  have hword := fun hkind => admitted_snapshot hx h he hkind
  obtain ⟨rfl, -, hallowed, -⟩ := step_exchanged hx h he
  obtain ⟨hbits, hopen, hcause⟩ := RequestScope.fits_bits hallowed.2.2
  have hbit : ∀ i ∈ [4, 5, 7], (wordOf x).getLsbD i = false := by
    by_cases hkind : scope.kind = .closeCleanup
    · have hsame := hallowed.2.1
      rw [RequestScope.same, hkind, Bool.and_eq_true, beq_iff_eq, beq_iff_eq] at hsame
      intro i hi
      refine (bit_of_and hsame.2 ?_).trans ?_ <;>
        (simp only [mem_cons, not_mem_nil, or_false] at hi
         obtain rfl | rfl | rfl := hi <;> decide)
    · rw [hword hkind]
      exact hbits
  refine ⟨fun h' => ?_, fun h' => ?_, fun h' => ?_, fun hkind h' => ?_, fun hk h' => ?_⟩
  · exact Bool.eq_false_iff.mp (hbit 7 (by decide)) (hemergency h')
  · exact Bool.eq_false_iff.mp (hbit 4 (by decide)) (hfailure h')
  · exact Bool.eq_false_iff.mp (hbit 5 (by decide)) (hsealing h')
  · exact Bool.eq_false_iff.mp (hopen hkind) (hword hkind ▸ hclosing h')
  · have hkind : scope.kind ≠ .closeCleanup := fun heq => by simp [heq] at hk
    exact hengagement h' (hword hkind ▸ hcause hk)

end

/-! ## The word of a session -/

/-- In every interleaving of the operations of a session, at any step from `x` to `y` and any later
state `z`: the bits closing, failed, sealed and emergency stay; the first cause and its tag are set
together and stay; the epoch does not fall, and an emergency raises it by one until its maximum; a
word that is left does not come back. An admission that is not for closing happens only if no
emergency, failure, closing or seal happened before, and no cause was set since its request read the
word (for the bootstrap and for work, none was engaged at all); an admission for closing only if no
emergency, failure or seal happened before. A sealed word is changed by `finish` only. -/
theorem session_word_never_returns {before after : List Event} {x y z : State} {e : Event}
    (hx : SessionRun before x) (hstep : Step machine x e y) (hrest : Run (Step machine) y after z) :
    (∀ mask ∈ [Mask.emergency, Mask.failed, Mask.closing, Mask.sealed],
      wordOf x &&& mask ≠ 0 → wordOf z &&& mask ≠ 0) ∧
    ((wordOf x &&& Mask.cause = 0 → intent (wordOf x) = 0) ∧
      (wordOf x &&& Mask.cause ≠ 0 → intent (wordOf z) = intent (wordOf x)) ∧
      (wordOf x &&& Mask.cause = 0 → wordOf y &&& Mask.cause ≠ 0 →
        ∃ tag : HaltTag, intent (wordOf y) = tag.bits)) ∧
    (epoch (wordOf x) ≤ epoch (wordOf z) ∧
      (Emergency e → epoch (wordOf y) = min (epoch (wordOf x) + 1) maxEpoch) ∧
      (¬Emergency e → epoch (wordOf y) = epoch (wordOf x))) ∧
    (wordOf y ≠ wordOf x → wordOf z ≠ wordOf x) ∧
    (∀ number scope old new, Exchanged (.admission number scope) old new e →
      (scope.kind ≠ .closeCleanup →
        (∀ e' ∈ before, ¬Emergency e' ∧ ¬Failure e' ∧ ¬Closing e' ∧ ¬Sealing e' ∧
          (scope.kind = .bootstrap ∨ scope.kind = .work → ¬Engagement e')) ∧
        (number = 0 ∧ scope = bootstrapScope ∨
          ∃ t pre mid post, before = pre ++ .act t .load scope.snapshot ::
              (mid ++ .act t (.newScope scope) number :: post) ∧
            ∀ e' ∈ mid ++ .act t (.newScope scope) number :: post, ¬FirstEngagement e')) ∧
      (scope.kind = .closeCleanup → ∀ e' ∈ before, ¬Emergency e' ∧ ¬Failure e' ∧ ¬Sealing e')) ∧
    (wordOf x &&& Mask.sealed ≠ 0 → wordOf y ≠ wordOf x →
      ∃ success old new, Exchanged (.finish success) old new e) := by
  have honward := step_onward hx hstep
  have hrest' := run_onward (hx.append (.single hstep)) hrest
  have hall := honward.trans hrest'
  refine ⟨?_, ⟨run_intent hx, fun hset => ?_, step_intent hx hstep⟩,
    ⟨hall.epoch, step_epoch hx hstep⟩, ?_, ?_, step_sealed hx hstep⟩
  · intro mask hmask
    simp only [mem_cons, not_mem_nil, or_false] at hmask
    obtain rfl | rfl | rfl | rfl := hmask
    · rw [emergency_iff, emergency_iff]
      exact hall.flags 7 (by decide)
    · rw [failed_iff, failed_iff]
      exact hall.flags 4 (by decide)
    · rw [closing_iff, closing_iff]
      exact hall.flags 3 (by decide)
    · rw [sealed_iff, sealed_iff]
      exact hall.flags 5 (by decide)
  · rcases hall.intent with heq | ⟨hnone, -⟩
    · exact heq
    · exact absurd hnone hset
  · intro hleft hback
    rw [hback] at hrest'
    exact hleft (hrest'.antisymm honward)
  · intro number scope old new he
    have hbefore := admitted_before hx hstep he
    refine ⟨fun hkind => ⟨fun e' he' => ?_, admitted_since hx hstep he hkind⟩, fun _ e' he' => ?_⟩
    · obtain ⟨hemergency, hfailure, hsealing, hclosing, hengagement⟩ := hbefore e' he'
      exact ⟨hemergency, hfailure, hclosing hkind, hsealing, hengagement⟩
    · obtain ⟨hemergency, hfailure, hsealing, -⟩ := hbefore e' he'
      exact ⟨hemergency, hfailure, hsealing⟩

/-- The word of a session that is ready and was stopped by its owner. -/
def stoppedWord : Word := (latchNext HaltTag.ownerStop.bits false Mask.ready).getD 0

/-- The scope of a cleanup that was asked for then. -/
def cleanupScope : RequestScope := { request := 1, snapshot := stoppedWord, kind := .restoration }

/-- The bootstrap ends, the owner stops the session, a cleanup is accepted and asks for admission.
-/
def cleanupEvents : List Event := [
  .call 0 ⟨.finishBootstrap, 1⟩, .act 0 (.ask .startupReady) true,
  .act 0 (.ask .bootstrapDone) true, .act 0 .tryLock true, .act 0 (.ask .modelReady) true,
  .act 0 .load 0, .act 0 (.exchange .ready 0 Mask.ready) (.ok ()), .act 0 .unlock (),
  .ret 0 ⟨.finishBootstrap, 1⟩ .nothing,
  .call 1 ⟨.engageTagged .ownerStop, 1⟩, .act 1 .load Mask.ready,
  .act 1 (.exchange (.latch .ownerStop false) Mask.ready stoppedWord) (.ok ()),
  .ret 1 ⟨.engageTagged .ownerStop, 1⟩ .nothing,
  .call 2 ⟨.accept .cleanup 1, 1⟩, .act 2 .load stoppedWord, .act 2 (.takeSequence 1) true,
  .act 2 (.newScope cleanupScope) 1,
  .ret 2 ⟨.accept .cleanup 1, 1⟩ (.request ⟨.cleanup, 1, stoppedWord, 0, none, 1⟩),
  .call 3 ⟨.admission 1 cleanupScope, 1⟩, .act 3 (.ask (.scopeOver 1)) false,
  .act 3 (.takeStep 1) true, .act 3 .load stoppedWord]

/-- A cleanup is admitted after the owner's stop, and what that tells. -/
theorem cleanup_admission_tells : ∃ (x y : State) (e : Event),
    SessionRun cleanupEvents x ∧ Step machine x e y ∧
      Exchanged (.admission 1 cleanupScope) stoppedWord stoppedWord e ∧
      (∃ e' ∈ cleanupEvents, Engagement e') ∧
      (∀ e' ∈ cleanupEvents, ¬Emergency e' ∧ ¬Failure e' ∧ ¬Closing e' ∧ ¬Sealing e') ∧
      ∃ t pre mid post, cleanupEvents = pre ++ .act t .load stoppedWord ::
          (mid ++ .act t (.newScope cleanupScope) 1 :: post) ∧
        ∀ e' ∈ mid ++ .act t (.newScope cleanupScope) 1 :: post, ¬FirstEngagement e' := by
  have hrun : ∃ x, SessionRun cleanupEvents x ∧ ∃ y, Step machine x
      (.act 3 (.exchange (.admission 1 cleanupScope) stoppedWord stoppedWord) (.ok ())) y :=
    ⟨_, .cons (.call rfl) (.cons (.act rfl ⟨trivial, rfl⟩) (.cons (.act rfl ⟨trivial, rfl⟩)
      (.cons (.act rfl ⟨rfl, rfl⟩) (.cons (.act rfl ⟨trivial, rfl⟩) (.cons (.act rfl ⟨rfl, rfl⟩)
      (.cons (.act rfl ⟨rfl, rfl⟩) (.cons (.act rfl ⟨rfl, rfl⟩) (.cons (.ret rfl rfl)
      (.cons (.call rfl) (.cons (.act rfl ⟨rfl, rfl⟩) (.cons (.act rfl ⟨rfl, rfl⟩)
      (.cons (.ret rfl rfl)
      (.cons (.call rfl) (.cons (.act rfl ⟨rfl, rfl⟩) (.cons (.act rfl ⟨rfl, rfl⟩)
      (.cons (.act rfl ⟨rfl, rfl⟩) (.cons (.ret rfl rfl)
      (.cons (.call ⟨rfl, rfl⟩) (.cons (.act rfl ⟨trivial, rfl⟩)
      (.cons (.act rfl ⟨⟨_, _, rfl, rfl⟩, rfl⟩) (.cons (.act rfl ⟨rfl, rfl⟩)
      (.nil _)))))))))))))))))))))), _, .act rfl ⟨rfl, rfl⟩⟩
  obtain ⟨x, hx, y, hstep⟩ := hrun
  obtain ⟨hbefore, hsince⟩ := ((session_word_never_returns hx hstep (.nil _)).2.2.2.2.1 1
    cleanupScope stoppedWord stoppedWord ⟨3, rfl⟩).1 nofun
  refine ⟨x, y, _, hx, hstep, ⟨3, rfl⟩, ⟨_, ?_, .inr ⟨Mask.ready, stoppedWord, .ownerStop, 1, rfl⟩⟩,
    fun e' he' => ?_, hsince.resolve_left nofun⟩
  · simp [cleanupEvents]
  · obtain ⟨hemergency, hfailure, hclosing, hsealing, -⟩ := hbefore e' he'
    exact ⟨hemergency, hfailure, hclosing, hsealing⟩

end NexusOs.HostSession
