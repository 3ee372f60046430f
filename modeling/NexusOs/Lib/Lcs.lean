import Mathlib

/-!
# Longest common subsequences

`LcsLength a b n` says that `n` is the length of a longest common subsequence of `a` and `b`. The
rules below are those by which a dynamic program computes it (`LcsLength.cons_same`,
`LcsLength.cons_ne`), and those by which a common beginning and a common end may be cut off
first (`LcsLength.append_left`, `LcsLength.append_right`).
-/

namespace NexusOs

open List

variable {α : Type}

/-- `n` is the length of a longest common subsequence of `a` and `b`. -/
structure LcsLength (a b : List α) (n : Nat) : Prop where
  reached : ∃ l : List α, l.Sublist a ∧ l.Sublist b ∧ l.length = n
  longest : ∀ l : List α, l.Sublist a → l.Sublist b → l.length ≤ n

namespace LcsLength

variable {a b : List α} {x y : α} {n m : Nat}

theorem nil_left (b : List α) : LcsLength [] b 0 where
  reached := ⟨[], List.Sublist.refl _, nil_sublist _, rfl⟩
  longest l hl _ := by simp [sublist_nil.mp hl]

theorem nil_right (a : List α) : LcsLength a [] 0 where
  reached := ⟨[], nil_sublist _, List.Sublist.refl _, rfl⟩
  longest l _ hl := by simp [sublist_nil.mp hl]

/-- Equal first elements are both taken. -/
theorem cons_same (h : LcsLength a b n) : LcsLength (x :: a) (x :: b) (n + 1) where
  reached := by
    obtain ⟨l, ha, hb, hlength⟩ := h.reached
    exact ⟨x :: l, ha.cons_cons x, hb.cons_cons x, by simp [hlength]⟩
  longest l ha hb := by
    have htail := h.longest l.tail ha.tail hb.tail
    simp only [length_tail] at htail
    omega

/-- One of two different first elements is not taken. -/
theorem cons_ne (hne : x ≠ y) (hdown : LcsLength a (y :: b) n) (hright : LcsLength (x :: a) b m) :
    LcsLength (x :: a) (y :: b) (max n m) where
  reached := by
    rcases Nat.le_total m n with hle | hle
    · obtain ⟨l, ha, hb, hlength⟩ := hdown.reached
      exact ⟨l, ha.cons x, hb, by omega⟩
    · obtain ⟨l, ha, hb, hlength⟩ := hright.reached
      exact ⟨l, ha, hb.cons y, by omega⟩
  longest l ha hb := by
    rcases sublist_cons_iff.mp ha with hskip | ⟨l', rfl, -⟩
    · exact Nat.le_trans (hdown.longest l hskip hb) (Nat.le_max_left ..)
    · rcases sublist_cons_iff.mp hb with hskip | ⟨l'', heq, -⟩
      · exact Nat.le_trans (hright.longest _ ha hskip) (Nat.le_max_right ..)
      · exact absurd (List.cons.inj heq).1 hne

/-- Common subsequences are those of the reversed lists, reversed. -/
theorem reverse (h : LcsLength a b n) : LcsLength a.reverse b.reverse n where
  reached := by
    obtain ⟨l, ha, hb, hlength⟩ := h.reached
    exact ⟨l.reverse, ha.reverse, hb.reverse, by simp [hlength]⟩
  longest l ha hb := by
    have := h.longest l.reverse (by simpa using ha.reverse) (by simpa using hb.reverse)
    simpa using this

/-- A common beginning is taken. -/
theorem append_left (h : LcsLength a b n) (p : List α) :
    LcsLength (p ++ a) (p ++ b) (p.length + n) := by
  induction p with
  | nil => simpa using h
  | cons x p ih =>
    have hcons := ih.cons_same (x := x)
    rwa [Nat.add_right_comm] at hcons

/-- A common end is taken. -/
theorem append_right (h : LcsLength a b n) (s : List α) :
    LcsLength (a ++ s) (b ++ s) (n + s.length) := by
  have hreverse := (h.reverse.append_left s.reverse).reverse
  simpa [Nat.add_comm] using hreverse

/-- The length of a longest common subsequence is determined. -/
theorem unique (h : LcsLength a b n) (h' : LcsLength a b m) : n = m := by
  obtain ⟨l, ha, hb, hlength⟩ := h.reached
  obtain ⟨l', ha', hb', hlength'⟩ := h'.reached
  have hle := h'.longest l ha hb
  have hge := h.longest l' ha' hb'
  omega

end LcsLength

end NexusOs
