import Mathlib

/-!
# Maps as lists in the order of their keys

A map with ordered keys kept as its list of entries: `insert` puts a key's value in its place and
takes the place of the value the key had.
-/

namespace NexusOs.KeyMap

open List

variable {κ ν : Type} [DecidableEq κ]

/-- The key has a value. -/
def contains (k : κ) (m : List (κ × ν)) : Bool := m.any fun entry => entry.1 = k

variable {k : κ} {m : List (κ × ν)}

theorem contains_iff : contains k m = true ↔ ∃ v, (k, v) ∈ m := by simp [contains]

variable [LT κ] [DecidableLT κ]

/-- The map with the value of a key set. -/
def insert (k : κ) (v : ν) (m : List (κ × ν)) : List (κ × ν) :=
  let rest := m.filter fun entry => entry.1 ≠ k
  rest.takeWhile (fun entry => entry.1 < k) ++ (k, v) :: rest.dropWhile fun entry => entry.1 < k

/-- `insert` adds one entry to those of the other keys, somewhere among them. -/
theorem insert_perm (k : κ) (v : ν) (m : List (κ × ν)) :
    (insert k v m).Perm ((k, v) :: m.filter fun entry => entry.1 ≠ k) := by
  refine perm_middle.trans (.cons _ ?_)
  rw [takeWhile_append_dropWhile]

variable {v : ν}

@[simp]
theorem mem_insert {entry : κ × ν} :
    entry ∈ insert k v m ↔ entry = (k, v) ∨ entry.1 ≠ k ∧ entry ∈ m := by
  rw [(insert_perm k v m).mem_iff, mem_cons]
  simp [and_comm]

@[simp]
theorem contains_insert {k' : κ} :
    contains k (insert k' v m) = true ↔ contains k m = true ∨ k' = k := by
  simp only [contains_iff, mem_insert]
  constructor
  · rintro ⟨w, h | ⟨-, h⟩⟩
    · exact .inr (Prod.mk.inj h).1.symm
    · exact .inl ⟨w, h⟩
  · intro h
    by_cases heq : k' = k
    · exact ⟨v, .inl (by rw [heq])⟩
    · obtain ⟨w, hw⟩ := h.resolve_right heq
      exact ⟨w, .inr ⟨.symm heq, hw⟩⟩

/-- Inserting a new key adds an entry. -/
theorem insert_perm_snoc {entries : List (κ × ν)} (h : m.Perm entries)
    (hnodup : (entries.map Prod.fst ++ [k]).Nodup) : (insert k v m).Perm (entries ++ [(k, v)]) := by
  have hnew : ∀ entry ∈ m, entry.1 ≠ k := by
    intro entry hentry heq
    have hmem : entry.1 ∈ entries.map Prod.fst := mem_map_of_mem (h.mem_iff.mp hentry)
    exact (nodup_append.mp hnodup).2.2 _ hmem _ (mem_singleton.mpr rfl) heq
  have hfilter : (m.filter fun entry => entry.1 ≠ k) = m :=
    filter_eq_self.mpr fun entry hentry => by simpa using hnew entry hentry
  have hinsert := insert_perm k v m
  rw [hfilter] at hinsert
  exact (hinsert.trans (h.cons _)).trans (perm_append_singleton _ _).symm

end NexusOs.KeyMap
