import Mathlib

/-!
# Apportionment by largest remainder

A total is shared out in proportion to a list of weights: each share is rounded down, and what is
short of the total goes, one each, to the positions with the largest remainders, the earlier one
of two that tie. `apportion_spec` says what comes out.
-/

namespace NexusOs.Apportion

open List

/-- Add one at each of these positions. -/
def bump (positions out : List Nat) : List Nat :=
  positions.foldl (fun out i => out.modify i (· + 1)) out

/-- Whether a position comes before another: a larger remainder does, or the earlier of two that
tie. -/
def outranks (rest : List Nat) (i j : Nat) : Bool :=
  rest.getD j 0 < rest.getD i 0 ∨ rest.getD i 0 = rest.getD j 0 ∧ i ≤ j

/-- The positions by rank. -/
def ranked (rest : List Nat) : List Nat := (range rest.length).mergeSort (outranks rest)

/-- The shares, rounded down. -/
def floors (total : Nat) (weights : List Nat) : List Nat :=
  weights.map fun w => w * total / weights.sum

/-- What rounding the shares down leaves of each. -/
def remainders (total : Nat) (weights : List Nat) : List Nat :=
  weights.map fun w => w * total % weights.sum

/-- The positions that are given one more. -/
def favoured (total : Nat) (weights : List Nat) : List Nat :=
  (ranked (remainders total weights)).take (total - (floors total weights).sum)

/-- The total, shared out by largest remainder. -/
def apportion (total : Nat) (weights : List Nat) : List Nat :=
  bump (favoured total weights) (floors total weights)

/-- Adding one at a position adds one to the sum. -/
theorem sum_modify {i : Nat} {out : List Nat} (h : i < out.length) :
    (out.modify i (· + 1)).sum = out.sum + 1 := by
  induction out generalizing i with
  | nil => cases h
  | cons a out ih =>
    cases i with
    | zero => simp only [modify_zero_cons, sum_cons]; omega
    | succ i => simp only [modify_succ_cons, sum_cons, ih (Nat.lt_of_succ_lt_succ h)]; omega

/-- Nothing but what the positions hold changes. -/
theorem length_bump (positions out : List Nat) : (bump positions out).length = out.length := by
  induction positions generalizing out with
  | nil => rfl
  | cons i positions ih => exact (ih _).trans (length_modify ..)

/-- Each of the positions adds one to the sum. -/
theorem sum_bump (positions out : List Nat) (h : ∀ i ∈ positions, i < out.length) :
    (bump positions out).sum = out.sum + positions.length := by
  induction positions generalizing out with
  | nil => rfl
  | cons i positions ih =>
    rw [forall_mem_cons] at h
    have hrest := ih (out.modify i (· + 1)) (by simpa using h.2)
    rw [sum_modify h.1] at hrest
    show (bump positions (out.modify i (· + 1))).sum = _
    rw [length_cons]
    omega

/-- A position holds one more for each time it was bumped. -/
theorem getElem?_bump (positions out : List Nat) (k : Nat) :
    (bump positions out)[k]? = out[k]?.map (· + positions.count k) := by
  induction positions generalizing out with
  | nil => simp [bump]
  | cons i positions ih =>
    show (bump positions (out.modify i (· + 1)))[k]? = _
    rw [ih, getElem?_modify, count_cons]
    by_cases hk : i = k
    · simp only [hk, if_true, beq_self_eq_true, Option.map_eq_map, Option.map_map,
        Function.comp_def, Nat.add_assoc, Nat.add_comm 1]
    · simp [hk]

/-- Every position is ranked once. -/
theorem ranked_perm (rest : List Nat) : (ranked rest).Perm (range rest.length) := mergeSort_perm _ _

/-- Who is ranked among the first has no smaller remainder than who is not. -/
theorem getD_le_of_mem_take {rest : List Nat} {i j k : Nat} (hi : i ∈ (ranked rest).take k)
    (hlt : j < rest.length) (hj : j ∉ (ranked rest).take k) : rest.getD j 0 ≤ rest.getD i 0 := by
  have hsorted : (ranked rest).Pairwise fun i j => outranks rest i j :=
    pairwise_mergeSort (by simp only [outranks, decide_eq_true_eq]; omega)
      (by simp only [outranks, Bool.or_eq_true, decide_eq_true_eq]; omega) _
  have hmem : j ∈ ranked rest := (ranked_perm rest).mem_iff.2 (mem_range.2 hlt)
  rw [← take_append_drop k (ranked rest)] at hsorted hmem
  have hdrop := (mem_append.1 hmem).resolve_left hj
  have hle := of_decide_eq_true ((pairwise_append.1 hsorted).2.2 i hi j hdrop)
  omega

/-- Quotients and remainders make up the whole. -/
theorem sum_div_add_sum_mod (s total : Nat) (weights : List Nat) :
    s * (weights.map fun w => w * total / s).sum + (weights.map fun w => w * total % s).sum =
      weights.sum * total := by
  induction weights with
  | nil => simp
  | cons w weights ih =>
    have hw := Nat.div_add_mod (w * total) s
    simp only [map_cons, sum_cons, Nat.mul_add, Nat.add_mul]
    omega

variable {total : Nat} {weights : List Nat}

/-- The shares rounded down do not exceed the total. -/
theorem sum_floors_le (hpos : 0 < weights.sum) : (floors total weights).sum ≤ total := by
  have h := sum_div_add_sum_mod weights.sum total weights
  exact Nat.le_of_mul_le_mul_left (h ▸ Nat.le_add_right _ _) hpos

/-- There is a position for every unit that is short. -/
theorem short_le (hpos : 0 < weights.sum) :
    total - (floors total weights).sum ≤ weights.length := by
  have h := sum_div_add_sum_mod weights.sum total weights
  have hrest : (remainders total weights).sum ≤ weights.length * weights.sum := by
    have hle := sum_le_card_nsmul (remainders total weights) weights.sum (by
      simp only [remainders, mem_map, forall_exists_index, and_imp]
      rintro _ w - rfl
      exact (Nat.mod_lt _ hpos).le)
    simpa [remainders] using hle
  refine Nat.le_of_mul_le_mul_left ?_ hpos
  rw [Nat.mul_sub, Nat.mul_comm weights.sum weights.length]
  unfold floors remainders at *
  omega

/-- These are the total shared out by the weights: nothing is lost, each share is rounded down or
up, and no larger weight is given less. -/
structure Apportioned (total : Nat) (weights out : List Nat) : Prop where
  length_eq : out.length = weights.length
  sum_eq : out.sum = total
  near : ∀ {i w o : Nat}, weights[i]? = some w → out[i]? = some o →
    o = w * total / weights.sum ∨ o = w * total / weights.sum + 1
  mono : ∀ {i j v w o p : Nat}, weights[i]? = some v → weights[j]? = some w →
    out[i]? = some o → out[j]? = some p → v < w → o ≤ p

/-- The favoured positions are some of the weights'. -/
theorem favoured_subperm (total : Nat) (weights : List Nat) :
    favoured total weights <+~ range weights.length := by
  have hperm := ranked_perm (remainders total weights)
  rw [remainders, length_map] at hperm
  exact (take_sublist _ _).subperm.trans hperm.subperm

/-- No position is favoured twice. -/
theorem count_favoured_le_one (total : Nat) (weights : List Nat) (i : Nat) :
    (favoured total weights).count i ≤ 1 :=
  ((favoured_subperm total weights).count_le i).trans (nodup_iff_count_le_one.1 nodup_range i)

/-- What a position is given. -/
theorem getElem?_apportion {i w : Nat} (hw : weights[i]? = some w) :
    (apportion total weights)[i]? =
      some (w * total / weights.sum + (favoured total weights).count i) := by
  simp [apportion, getElem?_bump, floors, hw]

/-- A position that another leaves without its share has no larger remainder. -/
theorem count_favoured_le {i j v w : Nat} (hv : weights[i]? = some v) (hw : weights[j]? = some w)
    (hlt : v * total % weights.sum < w * total % weights.sum) :
    (favoured total weights).count i ≤ (favoured total weights).count j := by
  by_cases hj : j ∈ favoured total weights
  · exact (count_favoured_le_one total weights i).trans (count_pos_iff.2 hj)
  · rw [count_eq_zero.2 fun hi => ?_]
    · exact Nat.zero_le _
    have hlen : j < weights.length := (List.getElem?_eq_some_iff.1 hw).1
    have hle := getD_le_of_mem_take hi (by simpa [remainders] using hlen) hj
    simp only [remainders, getD_eq_getElem?_getD, getElem?_map, hv, hw] at hle
    exact absurd hlt (Nat.not_lt.2 hle)

/-- Sharing out by largest remainder apportions the total. -/
theorem apportion_spec (htotal : 0 < total) (hpos : 0 < weights.sum) :
    Apportioned total weights (apportion total weights) where
  length_eq := by rw [apportion, length_bump, floors, length_map]
  sum_eq := by
    have hsub := favoured_subperm total weights
    have hlen : (favoured total weights).length = total - (floors total weights).sum := by
      rw [favoured, length_take, (ranked_perm _).length_eq, length_range, remainders, length_map]
      exact Nat.min_eq_left (short_le hpos)
    rw [apportion, sum_bump _ _ fun i hi => by simpa [floors] using hsub.subset hi, hlen]
    exact Nat.add_sub_of_le (sum_floors_le hpos)
  near := by
    intro i w o hw ho
    rw [getElem?_apportion hw, Option.some_inj] at ho
    have hone := count_favoured_le_one total weights i
    omega
  mono := by
    intro i j v w o p hv hw ho hp hlt
    rw [getElem?_apportion hv, Option.some_inj] at ho
    rw [getElem?_apportion hw, Option.some_inj] at hp
    have hscaled : v * total < w * total := Nat.mul_lt_mul_of_pos_right hlt htotal
    obtain hdiv | hdiv := (Nat.div_le_div_right hscaled.le : _ / weights.sum ≤ _).lt_or_eq
    · have hone := count_favoured_le_one total weights i
      omega
    · have hv' := Nat.div_add_mod (v * total) weights.sum
      have hw' := Nat.div_add_mod (w * total) weights.sum
      rw [hdiv] at hv'
      have hrest : v * total % weights.sum < w * total % weights.sum := by omega
      have hcount := count_favoured_le hv hw hrest
      omega

end NexusOs.Apportion
