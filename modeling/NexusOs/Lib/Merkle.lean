import Mathlib

/-!
# Merkle trees over a list

The leaves are put together pair by pair, the last one with itself if their number is odd, and so
on from level to level until one node is left. Where no two of the pairs have one node, a level
determines the leaves as long as their number is known (`level_inj`) or none of them stands twice
(`level_inj_of_nodup`), and a path to a level starts at a leaf (`mem_of_ascend`). The path made
for a leaf leads to the top (`ascend_pathFrom`).
-/

namespace NexusOs.Merkle

open List

variable {α : Type} (node : α → α → α)

/-- Neighbours, the last one with itself. -/
def pairs : List α → List (α × α)
  | [] => []
  | [a] => [(a, a)]
  | a :: b :: rest => (a, b) :: pairs rest

/-- The nodes over the neighbours of a level. -/
def nextLevel (l : List α) : List α := (pairs l).map fun p => node p.1 p.2

/-- The level that many steps above. -/
def level : Nat → List α → List α
  | 0, l => l
  | n + 1, l => level n (nextLevel node l)

/-- The pairs whose nodes make up these levels. -/
def hashed : Nat → List α → List (α × α)
  | 0, _ => []
  | n + 1, l => pairs l ++ hashed n (nextLevel node l)

/-- Go up while there is more than one node, at most that many times. -/
def climb : Nat → List α → List α
  | 0, l => l
  | fuel + 1, l => if 1 < l.length then climb fuel (nextLevel node l) else l

/-- The pair of a node and its sibling, which may be on the left. -/
def withSibling (a : α) (step : Bool × α) : α × α := if step.1 then (step.2, a) else (a, step.2)

/-- Go up from a leaf along the siblings of a path. -/
def ascend (a : α) (path : List (Bool × α)) : α :=
  path.foldl (fun a step => node (withSibling a step).1 (withSibling a step).2) a

/-- The pairs whose nodes lie on a path. -/
def onPath (a : α) : List (Bool × α) → List (α × α)
  | [] => []
  | step :: path =>
    withSibling a step :: onPath (node (withSibling a step).1 (withSibling a step).2) path

/-- A level with its last node once more if their number is odd. -/
def padded (l : List α) : List α := if l.length % 2 = 0 then l else l ++ l.getLast?.toList

/-- The nodes of a padded level, two by two. -/
def twoByTwo : List α → List α
  | a :: b :: rest => node a b :: twoByTwo rest
  | _ => []

/-- The siblings on the way up from a position; `none` if one were out of bounds. -/
def pathFrom : Nat → List α → Nat → Option (List (Bool × α))
  | 0, _, _ => some []
  | fuel + 1, l, i =>
    if 1 < l.length then do
      let sibling ← (padded l)[if i % 2 = 0 then i + 1 else i - 1]?
      let path ← pathFrom fuel (twoByTwo node (padded l)) (i / 2)
      return (i % 2 != 0, sibling) :: path
    else some []

variable {node} {l l' : List α} {n : Nat}

/-! ## Pairs -/

theorem length_pairs : (pairs l).length = (l.length + 1) / 2 := by
  induction l using pairs.induct with
  | case1 | case2 => simp [pairs]
  | case3 a b rest ih =>
    simp only [pairs, length_cons]
    omega

@[simp] theorem length_nextLevel : (nextLevel node l).length = (l.length + 1) / 2 := by
  rw [nextLevel, length_map, length_pairs]

theorem mem_of_mem_pairs {p : α × α} (h : p ∈ pairs l) : p.1 ∈ l ∧ p.2 ∈ l := by
  induction l using pairs.induct with
  | case1 => cases h
  | case2 a =>
    obtain rfl := mem_singleton.mp h
    simp
  | case3 a b rest ih =>
    rcases mem_cons.mp h with rfl | h
    · simp
    · exact ⟨by simp [(ih h).1], by simp [(ih h).2]⟩

/-- The first ones of the pairs are some of the list, in its order. -/
theorem fst_pairs_sublist : ((pairs l).map Prod.fst).Sublist l := by
  induction l using pairs.induct with
  | case1 => exact .slnil
  | case2 a => exact .refl _
  | case3 a b rest ih => exact (ih.cons b).cons_cons a

theorem head?_pairs : (pairs l).head?.map Prod.fst = l.head? := by
  induction l using pairs.induct <;> rfl

theorem pairs_inj (hlength : l.length = l'.length) (h : pairs l = pairs l') : l = l' := by
  induction l using pairs.induct generalizing l' with
  | case1 => exact (length_eq_zero_iff.mp hlength.symm).symm
  | case2 a =>
    obtain ⟨b, rfl⟩ := length_eq_one_iff.mp hlength.symm
    simpa [pairs] using h
  | case3 a b rest ih =>
    match l' with
    | c :: d :: rest' =>
      simp only [pairs, List.cons.injEq, Prod.mk.injEq] at h
      rw [h.1.1, h.1.2, ih (by simpa using hlength) h.2]

/-- Lists with the same pairs are equally long, if nothing stands twice. -/
theorem length_eq_of_pairs (hl : l.Nodup) (hl' : l'.Nodup) (h : pairs l = pairs l') :
    l.length = l'.length := by
  induction l using pairs.induct generalizing l' with
  | case1 => match l' with
    | [] => rfl
    | [_] | _ :: _ :: _ => cases h
  | case2 a => match l' with
    | [_] => rfl
    | b :: c :: rest =>
      -- the one element would be both of a pair
      simp only [pairs, List.cons.injEq, Prod.mk.injEq] at h
      rw [← h.1.1, ← h.1.2] at hl'
      simp at hl'
  | case3 a b rest ih => match l' with
    | [c] =>
      simp only [pairs, List.cons.injEq, Prod.mk.injEq] at h
      rw [h.1.1, h.1.2] at hl
      simp at hl
    | c :: d :: rest' =>
      simp only [pairs, List.cons.injEq] at h
      have := ih hl.of_cons.of_cons hl'.of_cons.of_cons h.2
      simpa using this

/-! ## Levels -/

/-- No two of the pairs have one node. -/
def NoCollision (node : α → α → α) (s s' : List (α × α)) : Prop :=
  ∀ p ∈ s, ∀ q ∈ s', node p.1 p.2 = node q.1 q.2 → p = q

theorem NoCollision.mono {s s' t t' : List (α × α)} (h : NoCollision node s s') (ht : t ⊆ s)
    (ht' : t' ⊆ s') : NoCollision node t t' :=
  fun p hp q hq => h p (ht hp) q (ht' hq)

/-- What no step down from a level can change determines the pairs. -/
theorem pairs_eq_of_nextLevel (h : NoCollision node (pairs l) (pairs l'))
    (heq : nextLevel node l = nextLevel node l') : pairs l = pairs l' := by
  refine ext_getElem (by simpa [nextLevel] using congrArg List.length heq) ?_
  intro i hi hi'
  refine h _ (getElem_mem hi) _ (getElem_mem hi') ?_
  have := congrArg (·[i]?) heq
  simpa [nextLevel, hi, hi'] using this

theorem nodup_nextLevel (hl : l.Nodup) (h : NoCollision node (pairs l) (pairs l)) :
    (nextLevel node l).Nodup := by
  refine .map_on (fun p hp q hq => h p hp q hq) ?_
  exact List.Nodup.of_map Prod.fst (hl.sublist fst_pairs_sublist)

/-- Equally long lists with one level are equal. -/
theorem level_inj (hlength : l.length = l'.length)
    (h : NoCollision node (hashed node n l) (hashed node n l'))
    (heq : level node n l = level node n l') : l = l' := by
  induction n generalizing l l' with
  | zero => exact heq
  | succ n ih =>
    have hnext : nextLevel node l = nextLevel node l' :=
      ih (by simp [hlength]) (h.mono (by simp [hashed]) (by simp [hashed])) heq
    exact pairs_inj hlength
      (pairs_eq_of_nextLevel (h.mono (by simp [hashed]) (by simp [hashed])) hnext)

/-- Lists in which nothing stands twice are equal if they have one level. -/
theorem level_inj_of_nodup (hl : l.Nodup) (hl' : l'.Nodup)
    (h : NoCollision node (hashed node n l ++ hashed node n l')
      (hashed node n l ++ hashed node n l')) (heq : level node n l = level node n l') : l = l' := by
  induction n generalizing l l' with
  | zero => exact heq
  | succ n ih =>
    have hsub : pairs l ⊆ hashed node (n + 1) l ++ hashed node (n + 1) l' :=
      fun p hp => by simp [hashed, hp]
    have hsub' : pairs l' ⊆ hashed node (n + 1) l ++ hashed node (n + 1) l' :=
      fun p hp => by simp [hashed, hp]
    have hrest : hashed node n (nextLevel node l) ++ hashed node n (nextLevel node l') ⊆
        hashed node (n + 1) l ++ hashed node (n + 1) l' := by
      intro p hp
      rcases mem_append.mp hp with hp | hp <;> simp [hashed, hp]
    have hnext : nextLevel node l = nextLevel node l' :=
      ih (nodup_nextLevel hl (h.mono hsub hsub)) (nodup_nextLevel hl' (h.mono hsub' hsub'))
        (h.mono hrest hrest) heq
    have hpairs := pairs_eq_of_nextLevel (h.mono hsub hsub') hnext
    exact pairs_inj (length_eq_of_pairs hl hl' hpairs) hpairs

/-- Lists with one level start alike. -/
theorem head?_eq_of_level (h : NoCollision node (hashed node n l) (hashed node n l'))
    (heq : level node n l = level node n l') : l.head? = l'.head? := by
  induction n generalizing l l' with
  | zero => rw [show l = l' from heq]
  | succ n ih =>
    have hnext : (nextLevel node l).head? = (nextLevel node l').head? :=
      ih (h.mono (by simp [hashed]) (by simp [hashed])) heq
    rw [← head?_pairs, ← head?_pairs (l := l')]
    simp only [nextLevel] at hnext
    cases hp : (pairs l).head? with
    | none => cases hq : (pairs l').head? <;> simp_all
    | some p => cases hq : (pairs l').head? with
      | none => simp_all
      | some q =>
        have hpq : p = q := by
          refine h p ?_ q ?_ (by simpa [hp, hq] using hnext)
          · simp [hashed, mem_of_head? hp]
          · simp [hashed, mem_of_head? hq]
        rw [hpq]

/-- A path that ends in a level that many steps above starts in the list. -/
theorem mem_of_ascend {a : α} {path : List (Bool × α)}
    (h : NoCollision node (hashed node path.length l) (onPath node a path))
    (hmem : ascend node a path ∈ level node path.length l) : a ∈ l := by
  induction path generalizing a l with
  | nil => exact hmem
  | cons step path ih =>
    have hnext := ih (h.mono (by simp [hashed]) (by simp [onPath])) hmem
    obtain ⟨p, hp, hnode⟩ := mem_map.mp hnext
    have heq : p = withSibling a step := h p (by simp [hashed, hp]) _ (by simp [onPath]) hnode
    obtain ⟨hfst, hsnd⟩ := mem_of_mem_pairs hp
    rw [heq] at hfst hsnd
    unfold withSibling at hfst hsnd
    split at hfst
    · simpa [*] using hsnd
    · exact hfst

/-- What holds of the leaves and of every node holds of every pair. -/
theorem forall_hashed {P : α → Prop} (hl : ∀ a ∈ l, P a) (hnode : ∀ a b, P (node a b)) :
    ∀ p ∈ hashed node n l, P p.1 ∧ P p.2 := by
  induction n generalizing l with
  | zero => simp [hashed]
  | succ n ih =>
    intro p hp
    rcases mem_append.mp hp with hp | hp
    · exact ⟨hl _ (mem_of_mem_pairs hp).1, hl _ (mem_of_mem_pairs hp).2⟩
    refine ih ?_ p hp
    intro a ha
    obtain ⟨q, -, rfl⟩ := mem_map.mp ha
    exact hnode q.1 q.2

theorem level_add (k : Nat) : level node (k + n) l = level node n (level node k l) := by
  induction k generalizing l with
  | zero => rw [Nat.zero_add, level]
  | succ k ih => rw [Nat.succ_add, level, ih, level]

theorem hashed_level_subset (k : Nat) : hashed node n (level node k l) ⊆ hashed node (k + n) l := by
  induction k generalizing l with
  | zero =>
    rw [Nat.zero_add]
    exact .refl _
  | succ k ih =>
    rw [Nat.succ_add]
    exact fun p hp => mem_append_right _ (ih hp)

/-- A node above the leaves is the node of a pair. -/
theorem exists_of_mem_level {k : Nat} {a : α} (h : a ∈ level node (k + 1) l) :
    ∃ p ∈ hashed node (k + 1 + n) l, a = node p.1 p.2 := by
  induction k generalizing l with
  | zero =>
    obtain ⟨p, hp, rfl⟩ := mem_map.mp h
    refine ⟨p, ?_, rfl⟩
    rw [Nat.add_comm]
    exact mem_append_left _ hp
  | succ k ih =>
    obtain ⟨p, hp, ha⟩ := ih h
    refine ⟨p, ?_, ha⟩
    rw [Nat.succ_add]
    exact mem_append_right _ hp

theorem clog_succ (h : 1 < n) : Nat.clog 2 n = Nat.clog 2 ((n + 1) / 2) + 1 :=
  Nat.clog_of_two_le (by omega) h

/-- The number of leaves says how far up the level with one node is. -/
theorem length_level (hl : l ≠ []) (hn : Nat.clog 2 l.length = n) :
    (level node n l).length = 1 := by
  induction n generalizing l with
  | zero =>
    have hpos := length_pos_iff.mpr hl
    have hle : l.length ≤ 1 := by
      by_contra hlt
      rw [clog_succ (by omega)] at hn
      cases hn
    exact Nat.le_antisymm hle hpos
  | succ n ih =>
    have hlt : 1 < l.length := by
      by_contra hle
      rw [Nat.clog_of_right_le_one (by omega)] at hn
      cases hn
    rw [clog_succ hlt, Nat.add_right_cancel_iff] at hn
    refine ih ?_ (by rw [length_nextLevel, hn])
    rw [← length_pos_iff, length_nextLevel]
    omega

/-- Going up ends at the level with one node. -/
theorem climb_eq_level {fuel : Nat} (hfuel : l.length ≤ fuel) :
    climb node fuel l = level node (Nat.clog 2 l.length) l := by
  induction fuel generalizing l with
  | zero =>
    obtain rfl := length_eq_zero_iff.mp (Nat.le_zero.mp hfuel)
    simp [climb, level]
  | succ fuel ih =>
    rw [climb]
    split
    · next hlt => rw [clog_succ hlt, level, ih (by simp; omega), length_nextLevel]
    · rw [Nat.clog_of_right_le_one (by omega), level]

/-! ## The path of a leaf -/

theorem padded_cons_cons (a b : α) : padded (a :: b :: l) = a :: b :: padded l := by
  have hmod : (a :: b :: l).length % 2 = l.length % 2 := Nat.add_mod_right l.length 2
  cases l with
  | nil => simp [padded]
  | cons c l =>
    rw [padded, hmod, padded, getLast?_cons_cons]
    split <;> rfl

/-- Padding a level first changes nothing of the one above. -/
theorem twoByTwo_padded (l : List α) : twoByTwo node (padded l) = nextLevel node l := by
  induction l using pairs.induct with
  | case1 | case2 => rfl
  | case3 a b rest ih =>
    rw [padded_cons_cons, twoByTwo, ih]
    rfl

/-- A node and its sibling in the padded level are a pair. -/
theorem pairs_of_sibling {i : Nat} {a : α} (h : l[i]? = some a) :
    ∃ sibling, (padded l)[if i % 2 = 0 then i + 1 else i - 1]? = some sibling ∧
      (pairs l)[i / 2]? = some (withSibling a (i % 2 != 0, sibling)) := by
  induction l using pairs.induct generalizing i with
  | case1 => cases h
  | case2 b =>
    match i with
    | 0 => exact ⟨b, rfl, by cases h; rfl⟩
  | case3 b c rest ih =>
    rw [padded_cons_cons]
    match i with
    | 0 => exact ⟨c, rfl, by cases h; rfl⟩
    | 1 => exact ⟨b, rfl, by cases h; rfl⟩
    | i + 2 =>
      obtain ⟨sibling, hsibling, hpair⟩ := @ih i h
      refine ⟨sibling, ?_, by simpa [pairs] using hpair⟩
      rw [Nat.add_mod_right, ← hsibling]
      split
      · rfl
      · obtain ⟨k, rfl⟩ : ∃ k, i = k + 1 := ⟨i - 1, by omega⟩
        rfl

/-- The path of a leaf has a sibling for each level and leads to the top. -/
theorem ascend_pathFrom {fuel i : Nat} {a : α} (hfuel : l.length ≤ fuel) (h : l[i]? = some a) :
    ∃ path, pathFrom node fuel l i = some path ∧ path.length = Nat.clog 2 l.length ∧
      climb node fuel l = [ascend node a path] := by
  induction fuel generalizing l i a with
  | zero =>
    obtain rfl := length_eq_zero_iff.mp (Nat.le_zero.mp hfuel)
    cases h
  | succ fuel ih =>
    by_cases hlt : 1 < l.length
    · obtain ⟨sibling, hsibling, hpair⟩ := pairs_of_sibling h
      have hnext : (nextLevel node l)[i / 2]? = some (ascend node a [(i % 2 != 0, sibling)]) := by
        rw [nextLevel, getElem?_map, hpair]
        rfl
      obtain ⟨path, hpath, hlength, htop⟩ := ih (by simp; omega) hnext
      refine ⟨(i % 2 != 0, sibling) :: path, ?_, ?_, ?_⟩
      · simp [pathFrom, hlt, hsibling, twoByTwo_padded, hpath]
      · rw [length_cons, hlength, length_nextLevel, clog_succ hlt]
      · rw [climb, if_pos hlt, htop]
        rfl
    · match l, i with
      | [b], 0 =>
        cases h
        exact ⟨[], rfl, by simp, rfl⟩
      | _ :: _ :: _, _ => simp at hlt

end NexusOs.Merkle
