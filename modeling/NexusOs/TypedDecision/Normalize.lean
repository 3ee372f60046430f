import NexusOs.Lib.Apportion

/-!
# The distribution of a reply

A reply gives each registered label a probability in parts per million (`decode.rs`). `normalize`
keeps values that sum to one million, shares one million out by largest remainder where they come
within 50,000 of it, and refuses any other sum. Labels are only carried, so they are any type; the
`u64` sums are natural numbers, as no list that fits in memory brings them to overflow.
-/

namespace NexusOs.TypedDecision

open List Apportion

variable {ℓ : Type}

/-- The whole, in parts per million. -/
def Ppm.max : Nat := 1000000

/-- A probability in parts per million. -/
structure Ppm where
  value : Nat
  le_max : value ≤ Ppm.max

/-- Why a reply is refused: here, only for its sum. -/
inductive DecodeCode where
  | badSum

/-- A label's share each, in registry order. -/
structure Distribution (ℓ : Type) where
  entries : List (ℓ × Ppm)
  renormalized : Bool

/-- What the values are, without their bound. -/
def weights (values : List Ppm) : List Nat := values.map Ppm.value

/-- The sum is zero or more than 50,000 away from one million. -/
def BadSum (sum : Nat) : Prop := sum = 0 ∨ ((sum : Int) - Ppm.max).natAbs > 50000

instance (sum : Nat) : Decidable (BadSum sum) := inferInstanceAs (Decidable (_ ∨ _))

/-- The values to be recorded, before they are clamped. -/
def ppm (values : List Ppm) : List Nat :=
  if (weights values).sum ≠ Ppm.max then apportion Ppm.max (weights values) else weights values

/-- The distribution over the labels that a reply's values stand for. -/
def normalize (labels : List ℓ) (values : List Ppm) : Except DecodeCode (Distribution ℓ) :=
  if (weights values).sum ≠ Ppm.max ∧ BadSum (weights values).sum then .error .badSum
  else .ok
    { entries := (labels.zip (ppm values)).map fun (label, p) =>
        (label, ⟨min p Ppm.max, Nat.min_le_right ..⟩)
      renormalized := (weights values).sum ≠ Ppm.max }

/-- Values that sum to one million already share it out. -/
theorem apportioned_self {values : List Nat} (hsum : values.sum = Ppm.max) :
    Apportioned Ppm.max values values where
  length_eq := rfl
  sum_eq := hsum
  near := by
    intro i w o hw ho
    rw [hw, Option.some_inj] at ho
    rw [hsum, Nat.mul_div_cancel w (by decide : 0 < Ppm.max)]
    exact .inl ho.symm
  mono := by
    intro i j v w o p hv hw ho hp hlt
    rw [hv, Option.some_inj] at ho
    rw [hw, Option.some_inj] at hp
    omega

/-- A sum that is not refused is not zero, and the values share out one million. -/
theorem ppm_apportioned {values : List Ppm}
    (h : ¬((weights values).sum ≠ Ppm.max ∧ BadSum (weights values).sum)) :
    0 < (weights values).sum ∧ Apportioned Ppm.max (weights values) (ppm values) := by
  have hmax : 0 < Ppm.max := by decide
  unfold ppm
  by_cases hsum : (weights values).sum = Ppm.max
  · rw [if_neg (not_not.2 hsum)]
    exact ⟨hsum ▸ hmax, apportioned_self hsum⟩
  · have hpos := Nat.pos_of_ne_zero fun hzero => h ⟨hsum, .inl hzero⟩
    rw [if_pos hsum]
    exact ⟨hpos, apportion_spec hmax hpos⟩

/-- A reply is refused exactly for its sum; otherwise the labels keep their order, no value is
clamped, no subtraction underflows, and the values share out one million, unchanged where they
already sum to it. -/
theorem normalize_apportions (labels : List ℓ) (values : List Ppm)
    (hlength : labels.length = values.length) :
    (normalize labels values = .error .badSum ↔ BadSum (weights values).sum) ∧
      ∀ dist, normalize labels values = .ok dist →
        dist.entries.map Prod.fst = labels ∧
        dist.entries.map (·.2.value) = ppm values ∧
        (floors Ppm.max (weights values)).sum ≤ Ppm.max ∧
        Apportioned Ppm.max (weights values) (dist.entries.map (·.2.value)) ∧
        ((weights values).sum = Ppm.max → dist.entries.map (·.2.value) = weights values) := by
  have hexact : BadSum (weights values).sum → (weights values).sum ≠ Ppm.max := by
    rintro hbad hsum
    rw [hsum] at hbad
    exact absurd hbad (by decide)
  unfold normalize
  split
  case isTrue hbad => exact ⟨iff_of_true rfl hbad.2, by simp⟩
  case isFalse hgood =>
    refine ⟨iff_of_false (by simp) fun hbad => hgood ⟨hexact hbad, hbad⟩, ?_⟩
    rintro _ ⟨⟩
    obtain ⟨hpos, hshares⟩ := ppm_apportioned hgood
    have hlen : labels.length = (ppm values).length := by
      rw [hshares.length_eq, weights, length_map, hlength]
    have hvalues : (labels.zip (ppm values)).map (min ·.2 Ppm.max) = ppm values := by
      -- no share exceeds their sum, so the clamp changes none
      calc (labels.zip (ppm values)).map (min ·.2 Ppm.max)
          = (labels.zip (ppm values)).map Prod.snd := map_congr_left fun pair hpair =>
            Nat.min_eq_left (hshares.sum_eq ▸ le_sum_of_mem (of_mem_zip hpair).2)
        _ = ppm values := map_snd_zip hlen.ge
    simp only [map_map, Function.comp_def, hvalues]
    refine ⟨map_fst_zip hlen.le, trivial, sum_floors_le hpos, hshares, fun hsum => ?_⟩
    rw [ppm, if_neg (not_not.2 hsum)]

/-- The hypotheses hold of a reply short of one million that is shared out. -/
theorem normalize_apportions_of_short :
    let values : List Ppm := [⟨333333, by decide⟩, ⟨333333, by decide⟩, ⟨333333, by decide⟩]
    ∃ dist, normalize ["a", "b", "c"] values = .ok dist ∧
      (dist.entries.map (·.2.value)).sum = 1000000 := by
  intro values
  have hgood : ¬((weights values).sum ≠ Ppm.max ∧ BadSum (weights values).sum) := by decide
  have hshares := (normalize_apportions ["a", "b", "c"] values rfl).2 _ (if_neg hgood)
  exact ⟨_, if_neg hgood, hshares.2.2.2.1.sum_eq⟩

end NexusOs.TypedDecision
