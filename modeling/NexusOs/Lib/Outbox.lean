import Mathlib

/-!
# Outboxes

Offers are made one after another and named by their number. An offer is placed at the end of a
list, met there already, kept in a queue for later, or refused; the queue is placed in its order
before any new offer. An outbox can get stuck, with or without the offer in its hand placed.
`Orderly` says what every outbox keeps: the offers placed stand in the order in which they were
made, each once, and none of them was placed before an offer kept earlier.
-/

namespace NexusOs

open List

/-- What became of an offer when it was made. -/
inductive Outbox.Outcome where
  | placed
  | met
  | kept
  | refused
  | lost
  deriving DecidableEq

/-- The offers made and what became of them, the numbers of those placed, of those met and of
those kept, and whether the outbox is stuck. -/
structure Outbox where
  outcomes : List Outbox.Outcome
  placed : List Nat
  met : List Nat
  pending : List Nat
  stuck : Bool

namespace Outbox

/-- Nothing was offered. -/
def empty : Outbox where
  outcomes := []
  placed := []
  met := []
  pending := []
  stuck := false

/-- What an outbox does with the queue. -/
inductive Drain : Outbox → Outbox → Prop where
  | place {b : Outbox} {i : Nat} {rest : List Nat} : b.stuck = false → b.pending = i :: rest →
      Drain b { b with placed := b.placed ++ [i], pending := rest }
  | meet {b : Outbox} {i : Nat} {rest : List Nat} : b.stuck = false → b.pending = i :: rest →
      Drain b { b with met := i :: b.met, pending := rest }
  | stick {b : Outbox} : Drain b { b with stuck := true }
  | stickPlaced {b : Outbox} {i : Nat} {rest : List Nat} : b.stuck = false →
      b.pending = i :: rest → Drain b { b with placed := b.placed ++ [i], stuck := true }

/-- What an outbox does with a new offer. -/
inductive Settle : Outbox → Outbox → Prop where
  | place {b : Outbox} : b.stuck = false → b.pending = [] →
      Settle b { b with
        outcomes := b.outcomes ++ [.placed], placed := b.placed ++ [b.outcomes.length] }
  | meet {b : Outbox} :
      Settle b { b with
        outcomes := b.outcomes ++ [.met], met := b.outcomes.length :: b.met }
  | keep {b : Outbox} : b.stuck = false →
      Settle b { b with
        outcomes := b.outcomes ++ [.kept], pending := b.pending ++ [b.outcomes.length] }
  | refuse {b : Outbox} : Settle b { b with outcomes := b.outcomes ++ [.refused] }
  | lose {b : Outbox} : Settle b { b with outcomes := b.outcomes ++ [.lost], stuck := true }
  | losePlaced {b : Outbox} : b.stuck = false → b.pending = [] →
      Settle b { b with
        outcomes := b.outcomes ++ [.lost], placed := b.placed ++ [b.outcomes.length],
        stuck := true }

/-- One offer: the queue is drained as far as it goes, then the offer is settled. -/
def Turn (b b' : Outbox) : Prop := ∃ mid, Relation.ReflTransGen Drain b mid ∧ Settle mid b'

/-- What every outbox keeps. -/
structure Orderly (b : Outbox) : Prop where
  placed_lt : b.placed.Pairwise (· < ·)
  placed_made : ∀ i ∈ b.placed, i < b.outcomes.length
  pending_made : ∀ i ∈ b.pending, i < b.outcomes.length
  /-- An outbox that is not stuck has its queue in order, behind everything placed. -/
  queue : b.stuck = false → (b.placed ++ b.pending).Pairwise (· < ·)
  /-- An offer kept is placed, met, or still kept. -/
  kept : ∀ i : Nat, b.outcomes[i]? = some .kept → i ∈ b.placed ∨ i ∈ b.met ∨ i ∈ b.pending
  /-- No later offer is placed before one that is still kept. -/
  passed : ∀ i ∈ b.pending, i ∈ b.placed ∨ ∀ j ∈ b.placed, j < i
  /-- An offer refused is neither placed nor kept. -/
  refused : ∀ i : Nat, b.outcomes[i]? = some .refused → i ∉ b.placed ∧ i ∉ b.pending

theorem orderly_empty : Orderly empty := by constructor <;> simp [empty]

variable {b b' : Outbox}

theorem Drain.outcomes (h : Drain b b') : b'.outcomes = b.outcomes := by cases h <;> rfl

/-- Draining the queue keeps the order. -/
theorem Orderly.drain (hb : Orderly b) (h : Drain b b') : Orderly b' := by
  cases h with
  | @place i rest hopen hpending =>
    have hqueue := hb.queue hopen
    rw [hpending] at hqueue
    have hsplit : (b.placed ++ [i] ++ rest).Pairwise (· < ·) := by simpa using hqueue
    have hplaced := (pairwise_append.mp hsplit).1
    have hbehind := (pairwise_append.mp hsplit).2.2
    have hmade := hb.pending_made
    simp only [hpending, mem_cons, forall_eq_or_imp] at hmade
    refine ⟨hplaced, ?_, hmade.2, fun _ => hsplit, ?_, ?_, ?_⟩
    · intro j hj
      rcases mem_append.mp hj with hj | hj
      · exact hb.placed_made j hj
      · exact mem_singleton.mp hj ▸ hmade.1
    · intro j hj
      have := hb.kept j hj
      simp only [hpending, mem_cons, mem_append] at this ⊢
      tauto
    · exact fun j hj => .inr fun k hk => hbehind k hk j hj
    intro j hj
    have := hb.refused j hj
    simp only [hpending, mem_cons, mem_append] at this ⊢
    tauto
  | @meet i rest hopen hpending =>
    have hqueue := hb.queue hopen
    have hmem : ∀ j ∈ rest, j ∈ b.pending := fun j hj => hpending ▸ mem_cons_of_mem i hj
    refine ⟨hb.placed_lt, hb.placed_made, fun j hj => hb.pending_made j (hmem j hj), ?_, ?_,
      fun j hj => hb.passed j (hmem j hj), fun j hj => ?_⟩
    · rw [hpending] at hqueue
      exact fun _ => hqueue.sublist ((sublist_cons_self i rest).append_left _)
    · intro j hj
      have := hb.kept j hj
      simp only [hpending, mem_cons] at this ⊢
      tauto
    · exact ⟨(hb.refused j hj).1, fun hmem' => (hb.refused j hj).2 (hmem j hmem')⟩
  | stick => exact ⟨hb.1, hb.2, hb.3, by simp, hb.5, hb.6, hb.7⟩
  | @stickPlaced i rest hopen hpending =>
    have hqueue := hb.queue hopen
    rw [hpending] at hqueue
    have hsplit : (b.placed ++ [i] ++ rest).Pairwise (· < ·) := by simpa using hqueue
    have hi : i ∈ b.pending := hpending ▸ mem_cons_self
    refine ⟨(pairwise_append.mp hsplit).1, ?_, hb.pending_made, by simp, ?_, ?_, ?_⟩
    · intro j hj
      rcases mem_append.mp hj with hj | hj
      · exact hb.placed_made j hj
      · exact mem_singleton.mp hj ▸ hb.pending_made i hi
    · intro j hj
      have := hb.kept j hj
      simp only [mem_append]
      tauto
    · intro j hj
      have hbehind := (pairwise_append.mp hsplit).2.2
      rw [hpending] at hj
      rcases mem_cons.mp hj with rfl | hj
      · exact .inl (by simp)
      · exact .inr fun k hk => hbehind k hk j hj
    · intro j hj
      obtain ⟨hplaced, hkept⟩ := hb.refused j hj
      refine ⟨fun hmem => ?_, hkept⟩
      rcases mem_append.mp hmem with hmem | hmem
      · exact hplaced hmem
      · exact hkept (mem_singleton.mp hmem ▸ hi)

/-- Draining the queue as far as it goes keeps the order. -/
theorem Orderly.drains (hb : Orderly b) (h : Relation.ReflTransGen Drain b b') : Orderly b' := by
  induction h with
  | refl => exact hb
  | tail _ hdrain ih => exact ih.drain hdrain

/-- Draining the queue makes no offer. -/
theorem outcomes_drains (h : Relation.ReflTransGen Drain b b') : b'.outcomes = b.outcomes := by
  induction h with
  | refl => rfl
  | tail _ hdrain ih => exact hdrain.outcomes.trans ih

/-- The outcomes after one more. -/
theorem of_getElem?_snoc {outcomes : List Outcome} {o o' : Outcome} {i : Nat}
    (h : (outcomes ++ [o])[i]? = some o') : outcomes[i]? = some o' ∨ i = outcomes.length ∧ o = o' := by
  rcases Nat.lt_trichotomy i outcomes.length with hi | rfl | hi
  · rw [List.getElem?_append_left hi] at h
    exact .inl h
  · exact .inr ⟨rfl, by simpa using h⟩
  · rw [List.getElem?_eq_none (by simp; omega)] at h
    cases h

/-- An offer that is neither placed nor kept keeps the order. -/
theorem Orderly.pass (hb : Orderly b) {o : Outcome} (ho : o ≠ .kept) (met : List Nat)
    (hmet : b.met ⊆ met) (stuck : Bool) (hstuck : stuck = false → b.stuck = false) :
    Orderly { b with outcomes := b.outcomes ++ [o], met, stuck } := by
  refine ⟨hb.placed_lt, fun i hi => ?_, fun i hi => ?_, fun h => hb.queue (hstuck h),
    fun i hi => ?_, hb.passed, fun i hi => ?_⟩
  · have := hb.placed_made i hi
    simp only [length_append]
    omega
  · have := hb.pending_made i hi
    simp only [length_append]
    omega
  · rcases of_getElem?_snoc hi with hi | ⟨-, rfl⟩
    · exact (hb.kept i hi).imp_right (.imp_left fun h => hmet h)
    · exact absurd rfl ho
  · rcases of_getElem?_snoc hi with hi | ⟨rfl, -⟩
    · exact hb.refused i hi
    · exact ⟨fun h => Nat.lt_irrefl _ (hb.placed_made _ h),
        fun h => Nat.lt_irrefl _ (hb.pending_made _ h)⟩

/-- An offer placed behind an empty queue keeps the order. -/
theorem Orderly.placeNew (hb : Orderly b) (hempty : b.pending = []) {o : Outcome}
    (ho : o ≠ .kept ∧ o ≠ .refused) (stuck : Bool) :
    Orderly { b with
      outcomes := b.outcomes ++ [o], placed := b.placed ++ [b.outcomes.length], stuck } := by
  have hplaced : (b.placed ++ [b.outcomes.length]).Pairwise (· < ·) := by
    rw [pairwise_append]
    refine ⟨hb.placed_lt, pairwise_singleton .., fun i hi j hj => ?_⟩
    exact mem_singleton.mp hj ▸ hb.placed_made i hi
  refine ⟨hplaced, fun i hi => ?_, by simp [hempty], fun _ => by simpa [hempty] using hplaced,
    fun i hi => ?_, by simp [hempty], fun i hi => ?_⟩
  · simp only [length_append, length_singleton]
    rcases mem_append.mp hi with hi | hi
    · have := hb.placed_made i hi
      omega
    · have := mem_singleton.mp hi
      omega
  · rcases of_getElem?_snoc hi with hi | ⟨-, rfl⟩
    · exact (hb.kept i hi).imp_left (mem_append_left _)
    · exact absurd rfl ho.1
  · rcases of_getElem?_snoc hi with hi | ⟨-, rfl⟩
    · refine ⟨fun hmem => ?_, by simp [hempty]⟩
      rcases mem_append.mp hmem with hmem | hmem
      · exact (hb.refused i hi).1 hmem
      · have := (List.getElem?_eq_some_iff.mp hi).1
        have := mem_singleton.mp hmem
        omega
    · exact absurd rfl ho.2

/-- Settling an offer keeps the order. -/
theorem Orderly.settle (hb : Orderly b) (h : Settle b b') : Orderly b' := by
  cases h with
  | place _ hempty | losePlaced _ hempty => exact hb.placeNew hempty (by decide) _
  | meet => exact hb.pass (by decide) _ (subset_cons_self _ _) _ id
  | refuse => exact hb.pass (by decide) _ (.refl _) _ id
  | lose => exact hb.pass (by decide) _ (.refl _) _ (by simp)
  | keep hopen =>
    have hqueue : (b.placed ++ (b.pending ++ [b.outcomes.length])).Pairwise (· < ·) := by
      rw [← append_assoc, pairwise_append]
      refine ⟨hb.queue hopen, pairwise_singleton .., fun i hi j hj => ?_⟩
      rw [mem_singleton.mp hj]
      exact (mem_append.mp hi).elim (hb.placed_made i) (hb.pending_made i)
    refine ⟨hb.placed_lt, fun i hi => ?_, fun i hi => ?_, fun _ => hqueue, fun i hi => ?_,
      fun i hi => .inr fun j hj => (pairwise_append.mp hqueue).2.2 j hj i hi,
      fun i hi => ?_⟩
    · have := hb.placed_made i hi
      simp only [length_append]
      omega
    · simp only [length_append, length_singleton]
      rcases mem_append.mp hi with hi | hi
      · have := hb.pending_made i hi
        omega
      · have := mem_singleton.mp hi
        omega
    · rcases of_getElem?_snoc hi with hi | ⟨rfl, -⟩
      · exact (hb.kept i hi).imp_right (.imp_right (mem_append_left _))
      · exact .inr (.inr (by simp))
    · rcases of_getElem?_snoc hi with hi | ⟨-, h⟩
      · refine ⟨(hb.refused i hi).1, fun hmem => ?_⟩
        rcases mem_append.mp hmem with hmem | hmem
        · exact (hb.refused i hi).2 hmem
        · have := (List.getElem?_eq_some_iff.mp hi).1
          have := mem_singleton.mp hmem
          omega
      · simp at h

/-- An outbox that is orderly stays so through every offer. -/
theorem Orderly.turn (hb : Orderly b) (h : Turn b b') : Orderly b' := by
  obtain ⟨mid, hdrain, hsettle⟩ := h
  exact (hb.drains hdrain).settle hsettle

end Outbox

end NexusOs
