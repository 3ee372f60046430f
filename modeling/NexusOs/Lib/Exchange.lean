import NexusOs.Lib.Transition

/-!
# Loops of compare-and-exchange on one word

Any number of loops run on one shared word. A loop serves a request: from a guess, it computes
the value to publish for the value it takes the word to hold, and exchanges; a failed exchange
gives it the present value, and it tries again. Requests in flight use different private
things, so a request that was ready when its loop began is ready when its exchange succeeds.

`run_atomic` is the result: such a run serves its requests one at a time, each in one step
at the moment of its successful exchange; and no step is lost (`word_eq`).
-/

namespace NexusOs.Exchange

open List

open Transition (Run)

/-- What is exchanged: the word in a state, the closure of each request, and what serving it
does. -/
structure Service (σ ρ W κ : Type) where
  word : σ → W
  /-- The value a loop takes the word to hold when it begins. -/
  guess : ρ → W
  /-- The value to publish for a present value. -/
  step : ρ → W → W
  /-- The state once the exchange of a request succeeds. -/
  serve : σ → ρ → σ
  word_serve : ∀ state request, word (serve state request) = step request (word state)
  /-- When a request can be made. -/
  ready : σ → ρ → Prop
  /-- The private things a request uses until it is served. -/
  uses : ρ → List κ
  ready_serve : ∀ {state request other}, ready state request → ready state other →
    (uses request).Disjoint (uses other) → ready (serve state request) other

/-- A loop in flight, and the value it takes the word to hold. -/
structure Flight (ρ W : Type) where
  request : ρ
  present : W

/-- What a loop does: it begins, an exchange fails, or an exchange succeeds. -/
inductive Attempt (ρ W : Type) where
  | began (request : ρ)
  | failed (request : ρ) (present : W)
  | served (request : ρ) (present : W)

/-- The request an attempt serves. -/
def Attempt.request? {ρ W : Type} : Attempt ρ W → Option ρ
  | .served request _ => some request
  | .began _ | .failed _ _ => none

variable {σ ρ W κ : Type}

/-- One attempt of one loop. -/
inductive Service.Step (service : Service σ ρ W κ) :
    σ × List (Flight ρ W) → Attempt ρ W → σ × List (Flight ρ W) → Prop where
  | began {state : σ} {flights : List (Flight ρ W)} {request : ρ}
      (hready : service.ready state request)
      (huses : ∀ flight ∈ flights, (service.uses flight.request).Disjoint (service.uses request)) :
      Step service (state, flights) (.began request)
        (state, flights ++ [⟨request, service.guess request⟩])
  | failed {state : σ} {before after : List (Flight ρ W)} {request : ρ} {present : W}
      (h : present ≠ service.word state) :
      Step service (state, before ++ ⟨request, present⟩ :: after) (.failed request present)
        (state, before ++ ⟨request, service.word state⟩ :: after)
  | served {state : σ} {before after : List (Flight ρ W)} {request : ρ} {present : W}
      (h : present = service.word state) :
      Step service (state, before ++ ⟨request, present⟩ :: after) (.served request present)
        (service.serve state request, before ++ after)

/-- A request served in one step. -/
def Service.Atomic (service : Service σ ρ W κ) (state : σ) (request : ρ) (next : σ) : Prop :=
  service.ready state request ∧ next = service.serve state request

/-- Every request in flight is ready, and no two use the same thing. -/
structure Service.Flying (service : Service σ ρ W κ) (state : σ) (requests : List ρ) : Prop where
  ready : ∀ request ∈ requests, service.ready state request
  apart : requests.Pairwise fun one other => (service.uses one).Disjoint (service.uses other)

variable {service : Service σ ρ W κ} {state next : σ × List (Flight ρ W)}
  {attempt : Attempt ρ W} {attempts : List (Attempt ρ W)} {request : ρ} {s : σ}

/-- A request that begins where it is ready and uses nothing in use. -/
theorem Service.Flying.began {requests : List ρ}
    (h : service.Flying s requests) (hready : service.ready s request)
    (huses : ∀ other ∈ requests, (service.uses other).Disjoint (service.uses request)) :
    service.Flying s (requests ++ [request]) := by
  refine ⟨fun other hmem => ?_, ?_⟩
  · rcases mem_append.mp hmem with hmem | hmem
    · exact h.ready other hmem
    · obtain rfl := mem_singleton.mp hmem
      exact hready
  · refine pairwise_append.mpr ⟨h.apart, pairwise_singleton _ _, ?_⟩
    intro other hmem last hlast
    obtain rfl := mem_singleton.mp hlast
    exact huses other hmem

/-- The requests that fly beside one that is served stay ready. -/
theorem Service.Flying.served {before after : List ρ}
    (h : service.Flying s (before ++ request :: after)) :
    service.Flying (service.serve s request) (before ++ after) := by
  obtain ⟨hbefore, hrequest, hcross⟩ := pairwise_append.mp h.apart
  obtain ⟨hafter, hrest⟩ := pairwise_cons.mp hrequest
  have hready := h.ready request (by simp)
  refine ⟨fun other hmem => ?_, ?_⟩
  · rcases mem_append.mp hmem with hmem | hmem
    · refine service.ready_serve hready (h.ready other (by simp [hmem])) (disjoint_symm ?_)
      exact hcross other hmem request (mem_cons_self ..)
    · exact service.ready_serve hready (h.ready other (by simp [hmem])) (hafter other hmem)
  · refine pairwise_append.mpr ⟨hbefore, hrest, fun one hone other hother => ?_⟩
    exact hcross one hone other (mem_cons_of_mem _ hother)

/-- An attempt keeps the requests in flight ready and apart. -/
theorem Service.Step.flying (h : service.Step state attempt next)
    (hfly : service.Flying state.1 (state.2.map Flight.request)) :
    service.Flying next.1 (next.2.map Flight.request) := by
  cases h with
  | began hready huses =>
    rw [map_append]
    refine hfly.began hready fun other hmem => ?_
    obtain ⟨flight, hflight, rfl⟩ := mem_map.mp hmem
    exact huses flight hflight
  | failed => simpa using hfly
  | served =>
    rw [map_append] at hfly ⊢
    exact hfly.served

/-- The requests a run served, in order. -/
def requests (attempts : List (Attempt ρ W)) : List ρ := attempts.filterMap Attempt.request?

/-- A run of loops serves its requests one at a time, each in one step. -/
theorem run_atomic (h : Run service.Step state attempts next)
    (hfly : service.Flying state.1 (state.2.map Flight.request)) :
    Run service.Atomic state.1 (requests attempts) next.1 := by
  induction h with
  | nil => exact .nil _
  | cons hstep _ ih =>
    have hrest := ih (hstep.flying hfly)
    cases hstep with
    | began | failed => exact hrest
    | served => exact .cons ⟨hfly.ready _ (by simp), rfl⟩ hrest

/-- Nothing is in flight at first. -/
theorem flying_nil (service : Service σ ρ W κ) (s : σ) : service.Flying s [] := ⟨nofun, .nil⟩

/-- What every served request preserves holds where a request is served. -/
theorem served_at {inv : σ → Prop} (h : Run service.Step state attempts next)
    (hfly : service.Flying state.1 (state.2.map Flight.request))
    (hserve : ∀ {s request t}, inv s → service.Atomic s request t → inv t) (hstate : inv state.1)
    {present : W} (hmem : .served request present ∈ attempts) :
    ∃ s, inv s ∧ service.ready s request ∧ present = service.word s := by
  obtain ⟨before, after, source, target, rfl, hbefore, hstep, -⟩ := h.of_mem hmem
  have hsource := (run_atomic hbefore hfly).invariant hserve hstate
  have hflying : service.Flying source.1 (source.2.map Flight.request) :=
    hbefore.invariant (fun hs ht => ht.flying hs) hfly
  cases hstep with
  | served hpresent => exact ⟨_, hsource, hflying.ready _ (by simp), hpresent⟩

/-- No step is lost: the word is what the served requests make of the first, one after the
other. -/
theorem word_eq {first last : σ} {served : List ρ} (h : Run service.Atomic first served last) :
    service.word last =
      served.foldl (fun word request => service.step request word) (service.word first) := by
  induction h with
  | nil => rfl
  | cons hstep _ ih => rw [ih, hstep.2, service.word_serve, foldl_cons]

end NexusOs.Exchange
