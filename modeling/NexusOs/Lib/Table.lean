import Mathlib

/-!
# Tables

A table maps finitely many keys to one value each, as a hash map or a tree map does. It is the
list of its entries, whose keys are distinct; what is proved about a table is proved through
`get?`, and through `size` and `count` where the number of the entries matters.
-/

namespace NexusOs

open List

/-- The entries of a map, and that no key occurs twice among them. -/
structure Table (κ ν : Type) where
  /-- The keys with their values. -/
  entries : List (κ × ν)
  /-- A key has one value. -/
  distinct : (entries.map Prod.fst).Nodup

namespace Table

variable {κ ν : Type}

/-- The table without entries. -/
def empty : Table κ ν := ⟨[], nodup_nil⟩

/-- Keep the entries that satisfy `p`. -/
def retain (p : κ → ν → Bool) (t : Table κ ν) : Table κ ν where
  entries := t.entries.filter fun e => p e.1 e.2
  distinct := t.distinct.sublist (filter_sublist.map Prod.fst)

/-- Replace every value. -/
def mapValues (f : κ → ν → ν) (t : Table κ ν) : Table κ ν where
  entries := t.entries.map fun e => (e.1, f e.1 e.2)
  distinct := by simpa [Function.comp_def] using t.distinct

/-- The number of entries. -/
def size (t : Table κ ν) : Nat := t.entries.length

/-- The number of entries that satisfy `p`. -/
def count (p : κ → ν → Bool) (t : Table κ ν) : Nat := t.entries.countP fun e => p e.1 e.2

/-- The sum of `w` over the values. -/
def sum (w : ν → Nat) (t : Table κ ν) : Nat := (t.entries.map fun e => w e.2).sum

variable {t : Table κ ν} {k k' : κ} {v : ν} {f : ν → ν} {p : κ → ν → Bool}

@[simp] theorem size_mapValues {f : κ → ν → ν} : (t.mapValues f).size = t.size := by
  simp [size, mapValues]

variable [DecidableEq κ]

/-- The value of a key. -/
def get? (t : Table κ ν) (k : κ) : Option ν := (t.entries.find? fun e => e.1 = k).map Prod.snd

/-- Drop a key. -/
def erase (k : κ) (t : Table κ ν) : Table κ ν := t.retain fun k' _ => k' ≠ k

/-- Give a key a value, in place of the one it has. -/
def insert (k : κ) (v : ν) (t : Table κ ν) : Table κ ν where
  entries := (t.erase k).entries ++ [(k, v)]
  distinct := by
    rw [map_append, nodup_append]
    refine ⟨(t.erase k).distinct, by simp, ?_⟩
    simp [erase, retain]

/-- Replace the value of one key, if it has one. -/
def modify (k : κ) (f : ν → ν) (t : Table κ ν) : Table κ ν :=
  t.mapValues fun k' v => if k' = k then f v else v

theorem get?_eq_some : t.get? k = some v ↔ (k, v) ∈ t.entries := by
  obtain ⟨entries, hd⟩ := t
  simp only [get?]
  induction entries with
  | nil => simp
  | cons e es ih =>
    obtain ⟨ek, ev⟩ := e
    rw [map_cons, nodup_cons] at hd
    by_cases hk : ek = k
    · subst hk
      have hnot : (ek, v) ∉ es := fun h => hd.1 (mem_map.mpr ⟨_, h, rfl⟩)
      simp [hnot, eq_comm]
    · simp [hk, Ne.symm hk, ih hd.2]

@[simp] theorem get?_empty : (empty : Table κ ν).get? k = none := rfl

@[simp] theorem get?_retain : (t.retain p).get? k = (t.get? k).filter (p k) := by
  ext v
  simp [get?_eq_some, retain]

@[simp] theorem get?_mapValues {f : κ → ν → ν} : (t.mapValues f).get? k = (t.get? k).map (f k) := by
  ext v
  simp only [Option.map_eq_some_iff, get?_eq_some, mapValues, mem_map, Prod.mk.injEq, Prod.exists]
  constructor
  · rintro ⟨_, a, h, rfl, rfl⟩
    exact ⟨a, h, rfl⟩
  · rintro ⟨a, h, rfl⟩
    exact ⟨k, a, h, rfl, rfl⟩

@[simp] theorem get?_erase : (t.erase k).get? k' = if k' = k then none else t.get? k' := by
  ext v
  by_cases h : k' = k <;> simp [erase, h]

@[simp] theorem get?_insert : (t.insert k v).get? k' = if k' = k then some v else t.get? k' := by
  ext w
  have herase : _ ↔ (k', w) ∈ (t.erase k).entries := get?_eq_some
  rw [get?_erase] at herase
  by_cases h : k' = k
  · subst h
    simp only [get?_eq_some, insert, mem_append, ← herase]
    simp [eq_comm]
  · simp only [get?_eq_some, insert, mem_append, ← herase]
    simp [h]

@[simp] theorem get?_modify :
    (t.modify k f).get? k' = if k' = k then (t.get? k').map f else t.get? k' := by
  simp only [modify]
  by_cases h : k' = k <;> simp [h]

@[simp] theorem size_modify : (t.modify k f).size = t.size := by simp [modify]

/-- Dropping entries that are not counted changes no count. -/
theorem count_retain {q : κ → ν → Bool}
    (h : ∀ k v, t.get? k = some v → p k v = true → q k v = true) :
    (t.retain q).count p = t.count p := by
  simp only [count, retain, countP_filter]
  refine countP_congr fun e he => ?_
  have hq := h e.1 e.2 (get?_eq_some.mpr he)
  simpa using hq

/-- A new key is counted if it satisfies `p`. -/
theorem count_insert (h : t.get? k = none) :
    (t.insert k v).count p = t.count p + (p k v).toNat := by
  have herase : (t.erase k).count p = t.count p := count_retain fun k' w hw _ => by
    have hne : k' ≠ k := by
      rintro rfl
      simp [h] at hw
    simpa using hne
  simp only [count] at herase
  cases hp : p k v <;> simp [count, insert, herase, hp]

theorem size_insert (h : t.get? k = none) : (t.insert k v).size = t.size + 1 := by
  have hcount := count_insert (v := v) (p := fun _ _ => true) h
  simpa [count, size] using hcount

/-- An entry is taken out of the sum. -/
theorem sum_erase {w : ν → Nat} : (t.erase k).sum w + ((t.get? k).map w).getD 0 = t.sum w := by
  obtain ⟨entries, hd⟩ := t
  simp only [sum, erase, retain, get?]
  induction entries with
  | nil => rfl
  | cons e es ih =>
    rw [map_cons, nodup_cons] at hd
    by_cases hk : e.1 = k
    · have hrest : es.filter (fun e => e.1 ≠ k) = es := by
        rw [filter_eq_self]
        intro e' he'
        have hne : e'.1 ≠ k := by
          intro hk'
          exact hd.1 (mem_map.mpr ⟨e', he', hk'.trans hk.symm⟩)
        simpa using hne
      simp only [decide_not] at hrest
      simp [hk, hrest, Nat.add_comm]
    · have := ih hd.2
      simp [hk] at this ⊢
      omega

theorem sum_insert {w : ν → Nat} :
    (t.insert k v).sum w + ((t.get? k).map w).getD 0 = t.sum w + w v := by
  have herase := sum_erase (t := t) (k := k) (w := w)
  simp only [sum] at herase
  simp only [sum, insert, map_append, sum_append, map_cons, map_nil, sum_cons, sum_nil]
  omega

@[simp] theorem erase_modify : (t.modify k f).erase k = t.erase k := by
  simp only [erase, retain, modify, mapValues, Table.mk.injEq, filter_map]
  refine (map_congr_left fun e he => ?_).trans (map_id _)
  have hne : e.1 ≠ k := by simpa using (mem_filter.mp he).2
  rw [if_neg hne]
  rfl

/-- An entry is taken out of the count. -/
theorem count_erase {q : ν → Bool} :
    (t.erase k).count (fun _ v => q v) + ((t.get? k).any q).toNat = t.count fun _ v => q v := by
  have hsum : ∀ t : Table κ ν, (t.count fun _ v => q v) = t.sum fun v => (q v).toNat := by
    intro t
    simp only [count, sum]
    induction t.entries with
    | nil => rfl
    | cons e es ih =>
      rw [countP_cons, map_cons, ih]
      cases q e.2 <;> simp [Nat.add_comm]
  have herase := sum_erase (t := t) (k := k) (w := fun v => (q v).toNat)
  rw [hsum, hsum, ← herase]
  cases t.get? k <;> simp

end Table

end NexusOs
