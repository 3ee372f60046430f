import Mathlib

/-!
# What a log says about its past

`Since φ ψ log` is the past operator of temporal logic over a log, oldest row first: some row is
`ψ`, and every row after it is `φ`. The row is judged together with the log before it, so that
operators nest. A log grows at its end, and `since_snoc` says what one more row makes of it.
`InTurn` says that rows of given kinds occur in a given order.
-/

namespace NexusOs.History

open List

variable {α : Type}

/-- Some row of the log is `ψ` of the log before it, and every later row is `φ`. -/
def Since (φ : α → Prop) (ψ : List α → α → Prop) (log : List α) : Prop :=
  ∃ before row after, log = before ++ row :: after ∧ ψ before row ∧ ∀ later ∈ after, φ later

variable {φ : α → Prop} {ψ : List α → α → Prop} {log : List α} {row : α}

theorem not_since_nil : ¬Since φ ψ [] := by
  rintro ⟨before, row, after, h, -⟩
  simp at h

/-- A log with one more row, split at a row: it is split at the new row, or before it. -/
theorem snoc_eq_append_cons {before after : List α} {found : α}
    (h : log ++ [row] = before ++ found :: after) :
    log = before ∧ row = found ∧ after = [] ∨
      ∃ rest, after = rest ++ [row] ∧ log = before ++ found :: rest := by
  rcases eq_nil_or_concat' after with rfl | ⟨after, last, rfl⟩
  · obtain ⟨hlog, hrow⟩ := append_inj' h rfl
    exact .inl ⟨hlog, head_eq_of_cons_eq hrow, rfl⟩
  · rw [← cons_append, ← append_assoc] at h
    obtain ⟨hlog, hrow⟩ := append_inj' h rfl
    exact .inr ⟨after, by rw [head_eq_of_cons_eq hrow], hlog⟩

/-- What is said of every row and the log before it can be checked row by row. -/
theorem forall_split_iff {p : List α → α → Prop} :
    (∀ before row after, log = before ++ row :: after → p before row) ↔
      ∀ i : Fin log.length, p (log.take i) log[i] := by
  constructor
  · intro h i
    exact h (log.take i) log[i] (log.drop (i + 1)) (by simp)
  · rintro h before row after rfl
    simpa using h ⟨before.length, by simp⟩

/-- A row was appended: it is the one looked for, or the past still holds. -/
theorem since_snoc : Since φ ψ (log ++ [row]) ↔ ψ log row ∨ φ row ∧ Since φ ψ log := by
  constructor
  · rintro ⟨before, found, after, h, hfound, hafter⟩
    obtain ⟨rfl, rfl, -⟩ | ⟨rest, rfl, rfl⟩ := snoc_eq_append_cons h
    · exact .inl hfound
    · exact .inr ⟨hafter _ (by simp), before, found, rest, rfl, hfound,
        fun later hlater => hafter later (by simp [hlater])⟩
  · rintro (h | ⟨hrow, before, found, after, rfl, hfound, hafter⟩)
    · exact ⟨log, row, [], rfl, h, by simp⟩
    refine ⟨before, found, after ++ [row], by simp, hfound, fun later hlater => ?_⟩
    rcases mem_append.mp hlater with h | h
    · exact hafter later h
    · rwa [mem_singleton.mp h]

/-- The row just appended is the one looked for. -/
theorem Since.now (h : ψ log row) : Since φ ψ (log ++ [row]) := since_snoc.mpr (.inl h)

/-- An appended row that is `φ` keeps the past. -/
theorem Since.snoc (h : Since φ ψ log) (hrow : φ row) : Since φ ψ (log ++ [row]) :=
  since_snoc.mpr (.inr ⟨hrow, h⟩)

/-- Rows that satisfy the predicates, one for each, occur in the log in this order. -/
def InTurn : List (α → Prop) → List α → Prop
  | [], _ => True
  | q :: qs, log => ∃ before row after, log = before ++ row :: after ∧ q row ∧ InTurn qs after

variable {q : α → Prop} {qs : List (α → Prop)}

/-- What occurred in turn still did after one more row. -/
theorem InTurn.snoc (h : InTurn qs log) : InTurn qs (log ++ [row]) := by
  induction qs generalizing log with
  | nil => trivial
  | cons q qs ih =>
    obtain ⟨before, found, after, rfl, hfound, hafter⟩ := h
    exact ⟨before, found, after ++ [row], by simp, hfound, ih hafter⟩

/-- What occurred in turn still did after any more rows. -/
theorem InTurn.append (h : InTurn qs log) (more : List α) : InTurn qs (log ++ more) := by
  induction more generalizing log with
  | nil => rwa [append_nil]
  | cons row more ih =>
    have hrow : InTurn qs (log ++ [row]) := h.snoc
    simpa using ih hrow

/-- The appended row is next in turn. -/
theorem InTurn.next (h : InTurn qs log) (hrow : q row) : InTurn (qs ++ [q]) (log ++ [row]) := by
  induction qs generalizing log with
  | nil => exact ⟨log, row, [], rfl, hrow, trivial⟩
  | cons p qs ih =>
    obtain ⟨before, found, after, rfl, hfound, hafter⟩ := h
    exact ⟨before, found, after ++ [row], by simp, hfound, ih hafter⟩

end NexusOs.History
