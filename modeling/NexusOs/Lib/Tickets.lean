import Mathlib

/-!
# Tickets

Every event of a log is of one owner. An owner may use what it has a ticket for, once for each
ticket. If every use is paid for by a ticket of the same owner, there are at most as many uses as
tickets in the whole log.
-/

namespace NexusOs.Tickets

open List

variable {E T : Type} [DecidableEq T] (owner : E → T)

/-- How many events of an owner are of a kind. -/
def count (kind : E → Bool) (t : T) (log : List E) : Nat :=
  log.countP fun e => kind e && decide (owner e = t)

/-- The owner has a ticket that it did not use. -/
def Holding (use ticket : E → Bool) (t : T) (log : List E) : Prop :=
  count owner use t log < count owner ticket t log

/-- Every owner used at most what it had tickets for. -/
def Paid (use ticket : E → Bool) (log : List E) : Prop :=
  ∀ t, count owner use t log ≤ count owner ticket t log

variable {owner} {use ticket kind : E → Bool} {t : T} {log more : List E} {e : E}

theorem count_append :
    count owner kind t (log ++ more) = count owner kind t log + count owner kind t more :=
  countP_append ..

theorem count_singleton :
    count owner kind t [e] = if kind e = true ∧ owner e = t then 1 else 0 := by
  simp [count]

theorem count_eq_zero : count owner kind t log = 0 ↔ ∀ e ∈ log, owner e = t → kind e = false := by
  simp only [count, countP_eq_zero]
  refine forall₂_congr fun e _ => ?_
  cases kind e <;> simp

theorem Paid.nil : Paid owner use ticket [] := fun _ => Nat.le_refl 0

/-- A log stays paid for if a use is by an owner with a ticket. -/
theorem Paid.snoc (h : Paid owner use ticket log)
    (huse : use e = true → Holding owner use ticket (owner e) log) :
    Paid owner use ticket (log ++ [e]) := by
  intro t
  rw [count_append, count_append, count_singleton]
  split
  · rename_i hused
    obtain ⟨hused, rfl⟩ := hused
    have hlt : count owner use (owner e) log < count owner ticket (owner e) log := huse hused
    omega
  · have hle := h t
    omega

/-- Who gets a ticket holds it. -/
theorem Paid.holding (h : Paid owner use ticket log) (howner : owner e = t)
    (hticket : ticket e = true) (huse : use e = false) :
    Holding owner use ticket t (log ++ [e]) := by
  rw [Holding, count_append, count_append, count_singleton, count_singleton,
    if_neg (by simp [huse]), if_pos ⟨hticket, howner⟩]
  exact Nat.lt_succ_of_le (h t)

/-- A ticket is held while its owner does not use it. -/
theorem Holding.append (h : Holding owner use ticket t log)
    (hmore : ∀ e ∈ more, owner e = t → use e = false) :
    Holding owner use ticket t (log ++ more) := by
  rw [Holding, count_append, count_append, count_eq_zero.mpr hmore]
  exact Nat.lt_of_lt_of_le h (Nat.le_add_right ..)

/-- A ticket that is held was given. -/
theorem Holding.given (h : Holding owner use ticket t log) : ∃ e ∈ log, ticket e = true := by
  by_contra hnone
  refine Nat.not_lt_zero (count owner use t log) (Nat.lt_of_lt_of_eq h ?_)
  refine count_eq_zero.mpr fun e he _ => ?_
  cases hticket : ticket e with
  | false => rfl
  | true => exact absurd ⟨e, he, hticket⟩ hnone

/-- A use was paid for by a ticket of its owner. -/
theorem Paid.given (h : Paid owner use ticket log) (he : e ∈ log) (huse : use e = true) :
    ∃ e' ∈ log, ticket e' = true ∧ owner e' = owner e := by
  have hpos : 0 < count owner use (owner e) log := countP_pos_iff.mpr ⟨e, he, by simp [huse]⟩
  obtain ⟨e', he', hticket⟩ := countP_pos_iff.mp (Nat.lt_of_lt_of_le hpos (h (owner e)))
  rw [Bool.and_eq_true, decide_eq_true_eq] at hticket
  exact ⟨e', he', hticket⟩

/-- At most as many uses as tickets. -/
theorem Paid.countP_le (h : Paid owner use ticket log) : log.countP use ≤ log.countP ticket := by
  have hcount : ∀ (kind : E → Bool) (t : T),
      ((log.filter kind).map owner).count t = count owner kind t log := by
    intro kind t
    rw [count_eq_countP, countP_map, countP_filter]
    refine countP_congr fun e _ => ?_
    simp [and_comm]
  have hsub : ((log.filter use).map owner).Subperm ((log.filter ticket).map owner) :=
    subperm_ext_iff.mpr fun t _ => by rw [hcount, hcount]; exact h t
  simpa [countP_eq_length_filter] using hsub.length_le

end NexusOs.Tickets
