import NexusOs.Ledger.Simulation.Basic

/-!
# The classification of a member

`Classification` lists what `classify` can answer, and when. A member that breaks a
constraint is refused and remembered: in the table unless it is a gating record, and in X
where X is empty.
-/

namespace NexusOs.Ledger

open Option

open Transition (Run)

variable {L : Type} {books : Books L} {core : Core} {l : L} {index : Nat} {member : Member}
  {facts : MemberFacts} {earlier : List Member} {gating : Bool} {u : Option (Nat × Occupant)}

/-- What `classify` answers, and when. -/
inductive Classification (core : Core) (index : Nat) (member : Member) (facts : MemberFacts)
    (earlier : List Member) (gating : Bool) : Verdict × Core → Prop where
  | corrected {seq : Seq} (hgating : gating = true) (h : facts.corrected = some seq) :
      Classification core index member facts earlier gating (.refused (.corrected seq) none, core)
  | present {row : Row} (hcorrected : gating = true → facts.corrected = none)
      (hrow : facts.row = some row) (hdigest : row.digest = member.key.digest) :
      Classification core index member facts earlier gating (.present row.seq, core)
  | known {known : Known}
      (hmissing : ∀ row, facts.row = some row → row.digest ≠ member.key.digest)
      (hknown : core.known member.key facts.explained = some known) :
      Classification core index member facts earlier gating
        (.refused (.conflict index known) (some index), core)
  | closed (hsession : core.session = .sealed) :
      Classification core index member facts earlier gating
        (.refused (.sessionClosed index) none, core)
  | insert (hcorrected : gating = true → facts.corrected = none)
      (hsession : core.session ≠ .sealed)
      (hknown : core.known member.key facts.explained = none)
      (hconstraint : constraint member facts earlier = none) :
      Classification core index member facts earlier gating (.insert, core)
  | refused {kind : CauseKind} (hsession : core.session ≠ .sealed)
      (hmissing : ∀ row, facts.row = some row → row.digest ≠ member.key.digest)
      (hknown : core.known member.key facts.explained = none)
      (hconstraint : constraint member facts earlier = some kind) :
      Classification core index member facts earlier gating (core.refuse index member kind gating)

/-- `classify` answers one of the cases of `Classification`. -/
theorem classify_cases (core : Core) (index : Nat) (member : Member) (facts : MemberFacts)
    (earlier : List Member) (gating : Bool) :
    Classification core index member facts earlier gating
      (core.classify index member facts earlier gating) := by
  unfold Core.classify
  cases hcorrected : (if gating then facts.corrected else none) with
  | some seq =>
    cases gating with
    | false => cases hcorrected
    | true => exact .corrected rfl hcorrected
  | none =>
    have hnone : gating = true → facts.corrected = none := by
      rintro rfl
      exact hcorrected
    cases hfilter : facts.row.filter fun row => row.digest = member.key.digest with
    | some row =>
      obtain ⟨hrow, hdigest⟩ := filter_eq_some_iff.mp hfilter
      exact .present hnone hrow (of_decide_eq_true hdigest)
    | none =>
      have hmissing : ∀ row, facts.row = some row → row.digest ≠ member.key.digest := by
        intro row hrow hdigest
        simp [hrow, hdigest] at hfilter
      cases hknown : core.known member.key facts.explained with
      | some known => exact .known hmissing hknown
      | none =>
        by_cases hsession : core.session = .sealed
        · simp only [if_pos hsession]
          exact .closed hsession
        simp only [if_neg hsession]
        cases hconstraint : constraint member facts earlier with
        | none => exact .insert hnone hsession hknown hconstraint
        | some kind => exact .refused hsession hmissing hknown hconstraint

/-- A member with a row of its identity breaks a constraint. -/
theorem row_of_constraint_none (h : constraint member facts earlier = none) : facts.row = none := by
  unfold constraint at h
  cases hrow : facts.row with
  | none => rfl
  | some row => simp [hrow] at h

/-! ## Classification does not look at U -/

/-- The core with another U. -/
def Core.withU (core : Core) (u : Option (Nat × Occupant)) : Core := { core with u := u }

theorem Core.withU_self {core : Core} (h : core.u = u) : core.withU u = core := by
  subst h
  rfl

theorem Core.withU_withU (core : Core) (u u' : Option (Nat × Occupant)) :
    (core.withU u).withU u' = core.withU u' := rfl

theorem setLatch_withU (core : Core) (u : Option (Nat × Occupant)) (cause : LatchCause) :
    (core.withU u).setLatch cause = (core.setLatch cause).withU u := by
  have hlatch : (core.withU u).latch = core.latch := rfl
  simp only [Core.setLatch, hlatch]
  split_ifs <;> rfl

theorem explanation_withU (core : Core) (u : Option (Nat × Occupant)) (key : RecordKey)
    (cause : Cause) :
    ((core.withU u).explanation key cause).2 = (core.explanation key cause).2.withU u := by
  rw [Core.explanation, Core.explanation]
  by_cases hroom : core.Room .x
  · have hroom' : (core.withU u).Room .x := hroom
    rw [Core.place_x hroom, Core.place_x hroom']
    rfl
  · have hroom' : ¬ (core.withU u).Room .x := hroom
    rw [Core.place_full hroom, Core.place_full hroom']
    exact setLatch_withU core u .overflow

theorem refuse_withU (core : Core) (u : Option (Nat × Occupant)) (index : Nat)
    (member : Member) (kind : CauseKind) (gating : Bool) :
    (core.withU u).refuse index member kind gating =
      ((core.refuse index member kind gating).1,
        (core.refuse index member kind gating).2.withU u) := by
  have hfull : (core.withU u).tableFull = core.tableFull := rfl
  have hremember : ∀ key cause, (core.withU u).remember key cause =
      (core.remember key cause).withU u := fun _ _ => rfl
  have hx : ∀ core : Core, (core.withU u).x = core.x := fun _ => rfl
  simp only [Core.refuse, hfull, hremember, hx, explanation_withU, setLatch_withU]
  split_ifs <;> rfl

/-- A refusal leaves U as it is. -/
theorem refuse_keepsU {core : Core} (h : core.u = u) (index : Nat)
    (member : Member) (kind : CauseKind) (gating : Bool) :
    (core.refuse index member kind gating).2.withU u =
      (core.refuse index member kind gating).2 := by
  have hrefuse := refuse_withU core u index member kind gating
  rw [Core.withU_self h] at hrefuse
  exact (congrArg Prod.snd hrefuse).symm

theorem classify_withU (core : Core) (u : Option (Nat × Occupant)) (index : Nat)
    (member : Member) (facts : MemberFacts) (earlier : List Member) (gating : Bool) :
    (core.withU u).classify index member facts earlier gating =
      ((core.classify index member facts earlier gating).1,
        (core.classify index member facts earlier gating).2.withU u) := by
  have hknown : (core.withU u).known = core.known := rfl
  have hsession : (core.withU u).session = core.session := rfl
  simp only [Core.classify, hknown, hsession, refuse_withU]
  cases (if gating then facts.corrected else none) with
  | some seq => rfl
  | none =>
    cases facts.row.filter fun row => row.digest = member.key.digest with
    | some row => rfl
    | none =>
      cases core.known member.key facts.explained with
      | some known => rfl
      | none =>
        split_ifs
        · rfl
        · cases constraint member facts earlier <;> rfl

/-- An explanation is placed in an empty X, or the store is latched. -/
theorem explanation_moves (books : Books L) (l : L) (hlive : core.Live)
    (hphase : core.phase = .healthy) (hx : core.x = none) (key : RecordKey) (cause : Cause) :
    ∃ moves, Run (Move.Step books) (core, l) moves ((core.explanation key cause).2, l) ∧
      (core.explanation key cause).2.refusals = core.refusals ∧
      ((core.explanation key cause).2.Remembers key ∨
        (core.explanation key cause).2.latch.isSome) := by
  rw [Core.explanation]
  by_cases hroom : core.Room .x
  · rw [Core.place_x hroom]
    exact ⟨_, .single (.explained hlive hphase hx hroom), rfl, .inl (.inr ⟨_, _, _, rfl⟩)⟩
  have hlatched : (core.setLatch .overflow) = { core with latch := some .overflow } := by
    simp [Core.setLatch, hlive.2]
  rw [Core.place_full hroom]
  refine ⟨_, .single (.latched trivial), ?_⟩
  rw [hlatched]
  exact ⟨rfl, .inr rfl⟩

section

variable (hfacts : Reported books l member facts)
  (hmissing : ∀ row, facts.row = some row → row.digest ≠ member.key.digest)

include hfacts hmissing

/-- A conflict that is known of a member is answered. -/
theorem conflicted_of_known {known : Known}
    (hknown : core.known member.key facts.explained = some known) :
    Run (Move.Step books) (core, l) [.conflicted member.key] (core, l) := by
  refine .single (.conflicted (.inl ⟨member, facts, rfl, hfacts, hmissing⟩) ?_)
  rcases Core.remembers_of_known hknown with hremembers | ⟨seq, hseq⟩
  · exact .inl hremembers
  · exact .inr (.inl (.inr ⟨member, facts, seq, rfl, hfacts, hseq⟩))

/-- A refused member is remembered, or the store is latched, and its conflict answered. -/
theorem refuse_moves (hlive : core.Live) (hphase : core.phase = .healthy)
    (hx : gating = true → core.x = none) (hknown : core.known member.key facts.explained = none)
    (index : Nat) (kind : CauseKind) :
    ∃ reason moves, (core.refuse index member kind gating).1 = .refused reason (some index) ∧
      (∀ i known, reason = .conflict i known → i = index) ∧
      Run (Move.Step books) (core, l) moves ((core.refuse index member kind gating).2, l) ∧
      Run (Move.Step books) ((core.refuse index member kind gating).2, l)
        [.conflicted member.key] ((core.refuse index member kind gating).2, l) := by
  have hconflicted : ∀ {core' : Core}, core'.Remembers member.key ∨ core'.latch.isSome →
      Run (Move.Step books) (core', l) [.conflicted member.key] (core', l) := fun h =>
    .single (.conflicted (.inl ⟨member, facts, rfl, hfacts, hmissing⟩) (h.imp_right .inr))
  have hnew : core.refusals.lookup member.key = none := by
    by_contra hsome
    exact (Core.known_eq_none.mp hknown).1 (.inl hsome)
  have hindex : ∀ i known, Reason.conflict index (.cause ⟨kind⟩) = .conflict i known →
      i = index := by
    rintro i known heq
    cases heq
    rfl
  cases gating with
  | true =>
    obtain ⟨moves, hrun, -, hknown⟩ :=
      explanation_moves books l hlive hphase (hx rfl) member.key ⟨kind⟩
    simp only [Core.refuse, hx rfl]
    exact ⟨_, moves, rfl, hindex, hrun, hconflicted hknown⟩
  | false =>
    cases hfull : core.tableFull with
    | true =>
      simp only [Core.refuse, hfull]
      exact ⟨_, _, rfl, nofun, .single (.latched trivial),
        hconflicted (.inr (by simp [Core.setLatch, hlive.2]))⟩
    | false =>
      have hlearned : Move.Step books (core, l) (.learned member.key ⟨kind⟩)
          (core.remember member.key ⟨kind⟩, l) := .learned hlive hfull hnew
      have hlive' : (core.remember member.key ⟨kind⟩).Live := hlive
      have htable : (core.remember member.key ⟨kind⟩).refusals.lookup member.key ≠ none := by
        simp [Core.remember]
      have hcell : (core.remember member.key ⟨kind⟩).x = core.x := rfl
      simp only [Core.refuse, hfull, Bool.false_eq_true, if_false, hcell]
      by_cases hx : core.x = none
      · obtain ⟨moves, hrun, hkeeps, -⟩ :=
          explanation_moves books l hlive' hphase hx member.key ⟨kind⟩
        rw [if_pos (isNone_iff_eq_none.mpr hx)]
        refine ⟨_, _, rfl, hindex, .cons hlearned hrun, hconflicted (.inl (.inl ?_))⟩
        rw [hkeeps]
        exact htable
      · rw [if_neg (mt isNone_iff_eq_none.mp hx)]
        exact ⟨_, _, rfl, hindex, .single hlearned, hconflicted (.inl (.inl htable))⟩

end

end NexusOs.Ledger
