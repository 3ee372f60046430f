import Mathlib

/-!
# Hash chains

Records that carry their position, the hash of the record before them and a hash of their own.
`Linked` says that a list of records is such a chain. Where the hash of a record determines it,
the hash of the last record determines the whole chain (`Linked.eq_of_getLast?`). Records that
only carry the hash before them (`Follows`) never repeat one if it determines the hash before it
(`Follows.nodup`).
-/

namespace NexusOs.Chain

open List

section

variable {α η : Type*} (index : α → Nat) (prev hash : α → η)

/-- The hash of the last record, or `p` if there is none. -/
def head (p : η) (l : List α) : η := (l.getLast?.map hash).getD p

/-- The records are numbered from `i` and each carries the hash of the one before, the first
one `p`. -/
def Linked : Nat → η → List α → Prop
  | _, _, [] => True
  | i, p, a :: l => index a = i ∧ prev a = p ∧ Linked (i + 1) (hash a) l

variable {index prev hash} {i : Nat} {p : η} {a : α} {l l' : List α}

@[simp] theorem head_snoc : head hash p (l ++ [a]) = hash a := by simp [head]

theorem head_cons : head hash p (a :: l) = head hash (hash a) l := by
  cases l with
  | nil => rfl
  | cons b l => simp [head, List.getLast?_cons]

/-- A chain is extended by a record with the next position and the last hash. -/
theorem linked_snoc : Linked index prev hash i p (l ++ [a]) ↔
    Linked index prev hash i p l ∧ index a = i + l.length ∧ prev a = head hash p l := by
  induction l generalizing i p with
  | nil => simp [Linked, head]
  | cons b l ih =>
    simp only [cons_append, Linked, ih, head_cons, length_cons, and_assoc,
      Nat.add_assoc, Nat.add_comm 1]

/-- What holds of the first previous hash and of every hash holds of every previous hash. -/
theorem Linked.forall_prev {P : η → Prop} (hl : Linked index prev hash i p l) (hp : P p)
    (hhash : ∀ a ∈ l, P (hash a)) : ∀ a ∈ l, P (prev a) := by
  induction l generalizing i p with
  | nil => simp
  | cons b l ih =>
    obtain ⟨-, hprev, hl⟩ := hl
    have hrest := ih hl (hhash b (by simp)) fun a ha => hhash a (by simp [ha])
    rintro a (_ | ⟨_, ha⟩)
    · rwa [hprev]
    · exact hrest a ha

/-- Equally long lists with one head have one last hash, if any. -/
theorem getLast?_of_head (hlength : l.length = l'.length) (h : head hash p l = head hash p l') :
    l.getLast?.map hash = l'.getLast?.map hash := by
  cases l using List.reverseRecOn with
  | nil => rw [length_eq_zero_iff.mp hlength.symm]
  | append_singleton l a => cases l' using List.reverseRecOn with
    | nil => simp at hlength
    | append_singleton l' b => simpa using h

/-- The last hash of a chain determines the chain, if the hashes of its records determine
the records. -/
theorem Linked.eq_of_getLast? (hl : Linked index prev hash i p l)
    (hl' : Linked index prev hash i p l') (hinj : ∀ a ∈ l, ∀ b ∈ l', hash a = hash b → a = b)
    (h : l.getLast?.map hash = l'.getLast?.map hash) : l = l' := by
  -- From the end: the last records are equal, so both carry one position, which makes the
  -- rests equally long, and one previous hash, which is the last hash of both rests.
  induction l using List.reverseRecOn generalizing l' with
  | nil => cases l' using List.reverseRecOn with
    | nil => rfl
    | append_singleton => simp at h
  | append_singleton l a ih => cases l' using List.reverseRecOn with
    | nil => simp at h
    | append_singleton l' b =>
      have hab : a = b := hinj a (by simp) b (by simp) (by simpa using h)
      subst hab
      obtain ⟨hrest, hindex, hprev⟩ := linked_snoc.mp hl
      obtain ⟨hrest', hindex', hprev'⟩ := linked_snoc.mp hl'
      have hlength : l.length = l'.length := by omega
      have heq : l = l' := ih hrest hrest' (fun x hx y hy => hinj x (by simp [hx]) y (by simp [hy]))
        (getLast?_of_head hlength (hprev.symm.trans hprev'))
      rw [heq]

end

section

variable {α η : Type*} (prev hash : α → η)

/-- Each record carries the hash of the one before, the first one `p`. -/
def Follows : η → List α → Prop
  | _, [] => True
  | p, a :: l => prev a = p ∧ Follows (hash a) l

variable {prev hash} {p : η} {a : α} {l l' : List α}

theorem head_append : head hash p (l ++ l') = head hash (head hash p l) l' := by
  induction l generalizing p with
  | nil => rfl
  | cons a l ih => rw [cons_append, head_cons, head_cons, ih]

theorem head_mem : head hash p l ∈ p :: l.map hash := by
  induction l using List.reverseRecOn with
  | nil => simp [head]
  | append_singleton l a => simp

theorem follows_append :
    Follows prev hash p (l ++ l') ↔
      Follows prev hash p l ∧ Follows prev hash (head hash p l) l' := by
  induction l generalizing p with
  | nil => simp [Follows, head]
  | cons a l ih => simp only [cons_append, Follows, ih, head_cons, and_assoc]

/-- What holds of the first hash and of every hash holds of every hash before. -/
theorem Follows.forall_prev {P : η → Prop} (h : Follows prev hash p l) (hp : P p)
    (hhash : ∀ a ∈ l, P (hash a)) : ∀ a ∈ l, P (prev a) := by
  induction l generalizing p with
  | nil => simp
  | cons b l ih =>
    rw [forall_mem_cons] at hhash ⊢
    exact ⟨h.1 ▸ hp, ih h.2 hhash.1 hhash.2⟩

/-- No hash stands twice, if a hash determines the hash before it and none is the first one. -/
theorem Follows.nodup (h : Follows prev hash p l)
    (hprev : ∀ a ∈ l, ∀ b ∈ l, hash a = hash b → prev a = prev b) (hp : ∀ a ∈ l, hash a ≠ p) :
    (p :: l.map hash).Nodup := by
  induction l using List.reverseRecOn with
  | nil => simp
  | append_singleton l a ih =>
    rw [follows_append] at h
    have hrest := ih h.1 (fun x hx y hy => hprev x (by simp [hx]) y (by simp [hy]))
      fun x hx => hp x (by simp [hx])
    have hnew : hash a ∉ l.map hash := by
      intro hmem
      obtain ⟨b, hb, hab⟩ := mem_map.mp hmem
      -- the hash before the repeated one would stand before it and at the end
      have hlast : prev b = head hash p l := (hprev b (by simp [hb]) a (by simp) hab).trans h.2.1
      obtain ⟨before, after, rfl⟩ := append_of_mem hb
      have hbefore : prev b = head hash p before := (follows_append.mp h.1).2.1
      rw [map_append, ← cons_append, nodup_append] at hrest
      refine hrest.2.2 _ head_mem _ head_mem (hbefore.symm.trans (hlast.trans ?_))
      rw [head_append, head_cons]
    rw [map_append, ← cons_append, nodup_append]
    refine ⟨hrest, by simp, ?_⟩
    rintro x hx y hy rfl
    obtain rfl : x = hash a := by simpa using hy
    rcases mem_cons.mp hx with hx | hx
    · exact hp a (by simp) hx
    · exact hnew hx

end

end NexusOs.Chain
