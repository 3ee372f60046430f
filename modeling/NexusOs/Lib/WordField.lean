import Mathlib

/-!
# Bit fields of a machine word

A field is `n` bits of a `w`-bit word, starting at bit `shift`. `get` reads it and `put`
replaces it. `getLsbD_get` and `getLsbD_put` say what each does to every bit; the laws that
a field holds what was put there and that disjoint fields do not disturb each other follow
from these two.
-/

namespace NexusOs.WordField

open BitVec

variable {w n m shift shift' : Nat} {word value : BitVec w} (i : Nat)

/-- The word whose low `n` bits are set. -/
def lowMask (w n : Nat) : BitVec w := BitVec.ofNat w (2 ^ n - 1)

/-- The field of `n` bits from `shift`. -/
def get (n shift : Nat) (word : BitVec w) : BitVec w := (word >>> shift) &&& lowMask w n

/-- The word with the field of `n` bits from `shift` replaced. -/
def put (n shift : Nat) (word value : BitVec w) : BitVec w :=
  (word &&& ~~~(lowMask w n <<< shift)) ||| ((value <<< shift) &&& (lowMask w n <<< shift))

/-- The bits of the mask. -/
@[simp] theorem getLsbD_lowMask : (lowMask w n).getLsbD i = (decide (i < w) && decide (i < n)) := by
  simp [lowMask, getLsbD_ofNat]

/-- The bits of the mask inside the word. -/
@[simp] theorem getElem_lowMask (h : i < w) : (lowMask w n)[i] = decide (i < n) := by
  rw [← getLsbD_eq_getElem, getLsbD_lowMask]
  simp [h]

/-- Bit `i` of a field is bit `shift + i` of its word. -/
theorem getLsbD_get :
    (get n shift word).getLsbD i = (decide (i < n) && word.getLsbD (shift + i)) := by
  by_cases hw : i < w
  · simp [get, hw, Bool.and_comm]
  · have hout : word.getLsbD (shift + i) = false := getLsbD_of_ge _ _ (by omega)
    rw [getLsbD_of_ge _ _ (by omega), hout, Bool.and_false]

/-- Replacing a field changes the bits of that field and no other. -/
theorem getLsbD_put :
    (put n shift word value).getLsbD i =
      if shift ≤ i ∧ i < shift + n ∧ i < w then value.getLsbD (i - shift)
      else word.getLsbD i := by
  by_cases hw : i < w
  · by_cases hlow : shift ≤ i
    · by_cases hhigh : i < shift + n
      · have hdiff : i - shift < n := by omega
        have hdiffw : i - shift < w := by omega
        simp [put, hw, hhigh, hdiff, hdiffw, Nat.not_lt.mpr hlow]
      · have hdiff : ¬ i - shift < n := by omega
        simp [put, hw, hhigh, hdiff]
    · have hlt : i < shift := by omega
      simp [put, hw, hlt]
  · simp [hw, getLsbD_of_ge _ _ (Nat.not_lt.mp hw)]

/-- A number below `2 ^ n` has no bit from `n` on. -/
theorem getLsbD_of_lt (h : value.toNat < 2 ^ n) {i : Nat} (hi : n ≤ i) :
    value.getLsbD i = false := by
  exact Nat.testBit_lt_two_pow (h.trans_le (Nat.pow_le_pow_right (by decide) hi))

/-- A field is below `2 ^ n`. -/
theorem toNat_get_lt : (get n shift word).toNat < 2 ^ n := by
  apply Nat.lt_pow_two_of_testBit
  intro i hi
  have h : (get n shift word).getLsbD i = (decide (i < n) && word.getLsbD (shift + i)) :=
    getLsbD_get i
  rw [BitVec.getLsbD] at h
  simp [h, Nat.not_lt.mpr hi]

/-- A field holds what was put there. -/
theorem get_put_same (hfit : shift + n ≤ w) (hvalue : value.toNat < 2 ^ n) :
    get n shift (put n shift word value) = value := by
  apply eq_of_getLsbD_eq
  intro i hi
  rw [getLsbD_get, getLsbD_put]
  by_cases hn : i < n
  · have hin : shift ≤ shift + i ∧ shift + i < shift + n ∧ shift + i < w := by omega
    simp [hn, hin]
  · simp [hn, getLsbD_of_lt hvalue (Nat.not_lt.mp hn)]

/-- Replacing a field leaves every disjoint field as it was. -/
theorem get_put_other (hdisjoint : shift + n ≤ shift' ∨ shift' + m ≤ shift) :
    get m shift' (put n shift word value) = get m shift' word := by
  apply eq_of_getLsbD_eq
  intro i hi
  rw [getLsbD_get, getLsbD_get, getLsbD_put]
  by_cases hm : i < m
  · have hout : ¬ (shift ≤ shift' + i ∧ shift' + i < shift + n ∧ shift' + i < w) := by omega
    rw [if_neg hout]
  · simp [hm]

/-- Words that agree on every bit of a field have the same field. -/
theorem get_congr {word' : BitVec w}
    (h : ∀ i, shift ≤ i → i < shift + n → word.getLsbD i = word'.getLsbD i) :
    get n shift word = get n shift word' := by
  apply eq_of_getLsbD_eq
  intro i hi
  rw [getLsbD_get, getLsbD_get]
  by_cases hn : i < n
  · rw [h (shift + i) (by omega) (by omega)]
  · simp [hn]

end NexusOs.WordField
