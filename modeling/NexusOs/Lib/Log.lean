import Mathlib

/-!
# Reading an append-only log

Rows of a log are numbered from 1. `first` is the first row a reader wants, `last` the last
one, each with its number. Appending to a log never changes what `first` found, and changes
what `last` finds only if a wanted row is appended.
-/

namespace NexusOs.Log

open List

variable {α β : Type}

/-- The first wanted row, with rows numbered from `n`. -/
def firstFrom (wanted : α → Option β) : Nat → List α → Option (Nat × β)
  | _, [] => none
  | n, row :: rows =>
    match wanted row with
    | some value => some (n, value)
    | none => firstFrom wanted (n + 1) rows

/-- The first wanted row of a log. -/
def first (wanted : α → Option β) (rows : List α) : Option (Nat × β) := firstFrom wanted 1 rows

/-- The last wanted row, with rows numbered from `n`. -/
def lastFrom (wanted : α → Option β) : Nat → List α → Option (Nat × β)
  | _, [] => none
  | n, row :: rows =>
    match lastFrom wanted (n + 1) rows with
    | some found => some found
    | none => (wanted row).map fun value => (n, value)

/-- The last wanted row of a log. -/
def last (wanted : α → Option β) (rows : List α) : Option (Nat × β) := lastFrom wanted 1 rows

variable {wanted : α → Option β} {rows more : List α} {row : α} {n k : Nat} {value : β}

theorem firstFrom_append :
    firstFrom wanted n (rows ++ more) =
      (firstFrom wanted n rows).or (firstFrom wanted (n + rows.length) more) := by
  induction rows generalizing n with
  | nil => rfl
  | cons row rows ih =>
    simp only [cons_append, firstFrom, length_cons]
    cases wanted row with
    | some value => rfl
    | none =>
      simp only [ih]
      congr 2
      omega

/-- What was found first stays found. -/
theorem first_append_of_some (h : first wanted rows = some (k, value)) :
    first wanted (rows ++ more) = some (k, value) := by
  rw [first] at h ⊢
  rw [firstFrom_append, h]
  rfl

theorem firstFrom_eq_none : firstFrom wanted n rows = none ↔ ∀ row ∈ rows, wanted row = none := by
  induction rows generalizing n with
  | nil => simp [firstFrom]
  | cons row rows ih =>
    simp only [firstFrom, forall_mem_cons]
    cases wanted row with
    | some value => simp
    | none => simp [ih]

/-- Nothing is found where nothing is wanted. -/
theorem first_eq_none : first wanted rows = none ↔ ∀ row ∈ rows, wanted row = none :=
  firstFrom_eq_none

theorem firstFrom_eq_some (h : firstFrom wanted n rows = some (k, value)) :
    ∃ row ∈ rows, wanted row = some value := by
  induction rows generalizing n with
  | nil => cases h
  | cons row rows ih =>
    simp only [firstFrom] at h
    cases hrow : wanted row with
    | some found =>
      rw [hrow] at h
      cases h
      exact ⟨row, mem_cons_self, hrow⟩
    | none =>
      rw [hrow] at h
      obtain ⟨row', hmem, hwanted⟩ := ih h
      exact ⟨row', mem_cons_of_mem _ hmem, hwanted⟩

/-- What is found is wanted. -/
theorem first_eq_some (h : first wanted rows = some (k, value)) :
    ∃ row ∈ rows, wanted row = some value :=
  firstFrom_eq_some h

theorem lastFrom_append :
    lastFrom wanted n (rows ++ more) =
      (lastFrom wanted (n + rows.length) more).or (lastFrom wanted n rows) := by
  induction rows generalizing n with
  | nil => simp [lastFrom]
  | cons row rows ih =>
    simp only [cons_append, lastFrom, ih]
    rw [show n + 1 + rows.length = n + (rows.length + 1) by omega]
    cases lastFrom wanted (n + (rows.length + 1)) more with
    | some found | none => rfl

theorem lastFrom_eq_none (h : ∀ row ∈ rows, wanted row = none) : lastFrom wanted n rows = none := by
  induction rows generalizing n with
  | nil => rfl
  | cons row rows ih =>
    rw [forall_mem_cons] at h
    rw [lastFrom, ih h.2, h.1]
    rfl

/-- What is found is inside the log. -/
theorem lastFrom_lt (h : lastFrom wanted n rows = some (k, value)) : k < n + rows.length := by
  induction rows generalizing n with
  | nil => cases h
  | cons row rows ih =>
    simp only [lastFrom] at h
    rw [length_cons]
    cases hlast : lastFrom wanted (n + 1) rows with
    | some found =>
      rw [hlast] at h
      cases h
      have := ih hlast
      omega
    | none =>
      rw [hlast] at h
      obtain ⟨_, -, hfound⟩ := Option.map_eq_some_iff.mp h
      cases hfound
      omega

/-- An appended row that is wanted is the last. -/
theorem last_snoc_of_some (h : wanted row = some value) :
    last wanted (rows ++ [row]) = some (rows.length + 1, value) := by
  rw [last, lastFrom_append]
  simp [lastFrom, h, Nat.add_comm]

/-- Appending rows that are not wanted changes nothing. -/
theorem last_append_of_none (h : ∀ row ∈ more, wanted row = none) :
    last wanted (rows ++ more) = last wanted rows := by
  rw [last, lastFrom_append, lastFrom_eq_none h]
  rfl

end NexusOs.Log
