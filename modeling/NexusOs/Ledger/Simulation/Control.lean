import NexusOs.Ledger.Simulation.Basic

/-!
# Operations as runs of moves: those that never insert

The session, `lookup`, `explain`, `snapshot`, and the worker's `barrier`, `resolve` and
`empty`.
-/

namespace NexusOs.Ledger

open Resumption (Prog Op.bind_run Op.get_run Prog.bind_ret Op.get_bind_run)
open List hiding set
open Transition (Run)

variable {L : Type} {books : Books L} {core : Core} {l : L}

/-- The session opens once. -/
theorem sessionOpened_simulated :
    Simulated books core l .sessionOpened .sessionOpened [] (Publish.sessionOpened (.new core))
      (l, .none) := by
  refine .ite (fun hsession => ?_) fun _ => .idle rfl trivial
  exact .moved rfl (.single (.opened hsession)) trivial

/-- The session is sealed only in a quiescent store. -/
theorem sessionSealed_simulated :
    Simulated books core l .sessionSealed .sessionSealed [] (Publish.sessionSealed (.new core))
      (l, .none) := by
  refine .ite (fun hquiescent => ?_) fun _ => .idle rfl trivial
  exact .moved rfl (.single (.sealed hquiescent)) (mem_singleton.mpr rfl)

/-- `lookup` learns a conflict at most. -/
theorem lookup_simulated (key : RecordKey) :
    Simulated books core l (.lookup key) .lookup [] (Publish.lookup key (.new core))
      (l, .none) := by
  simp only [Publish.lookup, Op.get_bind_run, Publish.new_core]
  refine .guard rfl trivial fun hsession => ?_
  refine .guard rfl trivial fun hlatch => ?_
  refine .guard rfl trivial fun _ => ?_
  have hlive : core.Live := ⟨not_not.mp hsession, by simpa using hlatch⟩
  refine .readNew rfl ⟨rfl, nofun⟩ fun answer hrow => ?_
  match answer with
  | .got none => exact .idle rfl trivial
  | .failed => exact .degraded rfl trivial
  | .corrupt => exact .moved rfl (.single (.latched trivial)) trivial
  | .got (some existing) =>
    refine .guard rfl trivial fun hdigest => ?_
    have hmissing : Missing books l key := .inr ⟨existing, hrow, hdigest⟩
    cases hknown : core.known key none with
    | some known =>
      have hremembers : core.Remembers key := by simpa using Core.remembers_of_known hknown
      exact .moved rfl (.single (.conflicted hmissing (.inl hremembers))) (mem_singleton.mpr rfl)
    | none =>
      have hnew : core.refusals.lookup key = none := by
        by_contra hsome
        exact (Core.known_eq_none.mp hknown).1 (.inl hsome)
      refine .readNew rfl ⟨rfl, nofun⟩ fun answer hexplained => ?_
      match answer with
      | .got (some seq) =>
        have hexplained : Explained books l key := .inl ⟨seq, hexplained⟩
        exact .moved rfl (.single (.conflicted hmissing (.inr (.inl hexplained))))
          (mem_singleton.mpr rfl)
      | .got none =>
        refine .ite (fun _ => ?_) fun hfull => ?_
        · exact .moved rfl (.single (.latched trivial)) trivial
        refine .moved rfl (.cons (.learned hlive (by simpa using hfull) hnew)
            (.single (.conflicted hmissing (.inl (.inl ?_))))) ?_
        · simp [Core.remember]
        · exact mem_cons_of_mem _ (mem_singleton.mpr rfl)
      | .failed => exact .degraded rfl trivial
      | .corrupt => exact .moved rfl (.single (.latched trivial)) trivial

/-- `explain` places a remembered conflict in X, or forgets one that is explained. -/
theorem explain_simulated (key : RecordKey) :
    Simulated books core l (.explain key) .explain [] (Publish.explain key (.new core))
      (l, .none) := by
  refine .guard rfl trivial fun hsession => ?_
  refine .guard rfl trivial fun hlatch => ?_
  refine .guard rfl trivial fun hphase => ?_
  have hlive : core.Live := ⟨not_not.mp hsession, by simpa using hlatch⟩
  refine .readNew rfl ⟨rfl, nofun⟩ fun answer hexplained => ?_
  match answer with
  | .got (some seq) => exact .moved rfl (.single (.forgot (.inl ⟨seq, hexplained⟩))) trivial
  | .failed => exact .degraded rfl trivial
  | .corrupt => exact .moved rfl (.cons .degraded (.single (.latched trivial))) trivial
  | .got none =>
    simp only [Publish.explainPending, Op.get_bind_run, Publish.new_core]
    cases hx : core.x with
    | some entry =>
      obtain ⟨n, occupant, stage⟩ := entry
      cases occupant with
      | explanation original cause =>
        exact .ite (fun _ => .idle rfl trivial) fun _ => .idle rfl trivial
      | gating | acknowledgement | correction => exact .idle rfl trivial
    | none =>
      cases hlookup : core.refusals.lookup key with
      | none => exact .idle rfl trivial
      | some cause =>
        simp only [Publish.place, Op.bind_run, Op.get_run, Prog.bind_ret, Publish.new_core]
        by_cases hroom : core.Room .x
        · rw [Core.place_x hroom]
          exact .moved rfl (.single (.explained hlive (not_not.mp hphase) hx hroom)) trivial
        · rw [Core.place_full hroom]
          exact .moved rfl (.single (.latched trivial)) trivial

/-- `snapshot` changes nothing unless its read fails. -/
theorem snapshot_simulated (nonce : Bytes 16) :
    Simulated books core l (.snapshot nonce) .snapshot [] (Publish.snapshot nonce (.new core))
      (l, .none) := by
  refine .guard rfl trivial fun _ => ?_
  refine .guard rfl trivial fun _ => ?_
  refine .guard rfl trivial fun _ => ?_
  refine .readNew rfl ⟨rfl, nofun⟩ fun answer hsurvey => ?_
  match answer with
  | .got set =>
    refine .ite (fun hset => ?_) fun _ => .idle rfl trivial
    exact .moved rfl (.single (.taken rfl hsurvey hset.1)) (mem_singleton.mpr rfl)
  | .failed => exact .degraded rfl trivial
  | .corrupt => exact .moved rfl (.cons .degraded (.single (.latched trivial))) trivial

/-- A barrier that passes makes the phase resolving where U is occupied. -/
theorem barrier_simulated (worker : Worker) :
    Simulated books core l (.barrier worker) .barrier [] (Publish.barrier worker (.new core))
      (l, .none) := by
  refine .guard rfl trivial fun _ => ?_
  refine .guard rfl trivial fun hphase => ?_
  refine .readNew rfl ⟨rfl, nofun⟩ fun answer _ => ?_
  match answer with
  | false => exact .idle rfl trivial
  | true => exact .moved rfl (.single (.passed (not_not.mp hphase))) trivial

section Resolve

variable {worker : Worker} {token : CellToken}

/-- U's gating record is absent, corrected in C, or explained in X. -/
theorem resolveGating_simulated {record : GatingRecord} {exit : Exit}
    (h : core.Resolving (.gating record exit)) :
    Simulated books core l (.resolve worker token) .resolve []
      (Publish.resolveGating record exit (.new core)) (l, .none) := by
  refine .readNew rfl ⟨rfl, nofun⟩ fun answer hrow => ?_
  match answer with
  | .got none => exact .moved rfl (.single (.released h hrow)) trivial
  | .got (some row) =>
    refine .ite (fun hdigest => ?_) fun hdigest => ?_
    · simp only [Publish.resolveCorrected, Publish.place, Op.bind_run, Op.get_run,
        Prog.bind_ret, Publish.new_core]
      by_cases hroom : core.Room .c
      · rw [Core.place_c hroom]
        exact .moved rfl (.single (.corrected h hroom hrow hdigest)) ⟨rfl, _, _, _, rfl⟩
      · rw [Core.place_full hroom]
        exact .moved rfl (.single (.latched trivial)) trivial
    · simp only [Publish.resolveConflict, Publish.place, Op.bind_run, Op.get_run,
        Prog.bind_ret, Publish.new_core]
      by_cases hroom : core.Room .x
      · rw [Core.place_x hroom]
        exact .moved rfl (.single (.contradicted h hroom hrow hdigest)) ⟨rfl, _, _, rfl⟩
      · rw [Core.place_full hroom]
        exact .moved rfl (.single (.latched trivial)) trivial
  | .failed => exact .degraded rfl trivial
  | .corrupt => exact .moved rfl (.single (.latched trivial)) trivial

/-- U's acknowledgement is absent, or durable and the frontier raised. -/
theorem resolveAck_simulated {set : SetFacts} {nonce : Bytes 16}
    (h : core.Resolving (.acknowledgement set nonce)) :
    Simulated books core l (.resolve worker token) .resolve []
      (Publish.resolveAck set nonce (.new core)) (l, .none) := by
  refine .readNew rfl ⟨rfl, nofun⟩ fun answer hack => ?_
  match answer with
  | .got none => exact .moved rfl (.single (.released h hack)) trivial
  | .got (some seq) =>
    refine .readNew rfl ⟨rfl, nofun⟩ fun answer hfrontier => ?_
    match answer with
    | .got durable =>
      refine .ite (fun htop => ?_) fun _ => ?_
      · exact .moved rfl (.single (.acknowledged h hack hfrontier htop)) trivial
      · exact .moved rfl (.single (.latched trivial)) trivial
    | .failed => exact .degraded rfl trivial
    | .corrupt => exact .moved rfl (.single (.latched trivial)) trivial
  | .failed => exact .degraded rfl trivial
  | .corrupt => exact .moved rfl (.single (.latched trivial)) trivial

/-- Only cells that break their invariant are latched for it. -/
theorem resolveBroken_simulated (h : ¬ core.CellsOk) :
    Simulated books core l (.resolve worker token) .resolve []
      (Publish.resolveBroken (.new core)) (l, .none) :=
  .moved rfl (.single (.latched h)) trivial

/-- `resolve` decides U's occupant. -/
theorem resolve_simulated :
    Simulated books core l (.resolve worker token) .resolve []
      (Publish.resolve worker token (.new core)) (l, .none) := by
  refine .guard rfl trivial fun _ => ?_
  refine .guard rfl trivial fun _ => ?_
  refine .guard rfl trivial fun hsession => ?_
  refine .guard rfl trivial fun hlatch => ?_
  refine .guard rfl trivial fun hphase => ?_
  have hlive : core.Live := ⟨not_not.mp hsession, by simpa using hlatch⟩
  have hphase : core.phase = .resolving := not_not.mp hphase
  have hresolving : ∀ {n occupant}, core.u = some (n, occupant) →
      (core.c.isNone = true ∧ core.x.isNone = true) → core.Resolving occupant := by
    intro n occupant hu hroom
    exact ⟨hlive, hphase, Option.isNone_iff_eq_none.mp hroom.1,
      Option.isNone_iff_eq_none.mp hroom.2, n, hu⟩
  have hroom : core.CellsOk → core.u.isSome → core.c.isNone = true ∧ core.x.isNone = true := by
    intro hok hsome
    obtain ⟨hc, hx, -⟩ := hok.u_alone hsome
    simp [hc, hx]
  match hu : core.u with
  | some (n, .gating record exit) =>
    refine .ite (fun htest => resolveGating_simulated (hresolving hu htest.1)) fun htest => ?_
    refine resolveBroken_simulated fun hok => htest ⟨hroom hok (by simp [hu]), ?_⟩
    obtain ⟨_, _, heq⟩ | ⟨_, _, heq, hexit⟩ := hok.u_kind n _ hu
    · cases heq
    · cases heq
      exact hexit
  | some (n, .acknowledgement set nonce) =>
    refine .ite (fun htest => resolveAck_simulated (hresolving hu htest)) fun htest => ?_
    exact resolveBroken_simulated fun hok => htest (hroom hok (by simp [hu]))
  | some (n, .correction about seq exit) | some (n, .explanation original cause) =>
    refine resolveBroken_simulated fun hok => ?_
    obtain ⟨_, _, heq⟩ | ⟨_, _, heq, -⟩ := hok.u_kind n _ hu <;> cases heq
  | none =>
    refine resolveBroken_simulated fun hok => ?_
    simpa [hu] using hok.resolving hphase

end Resolve

/-- `empty` empties an X that is committed. -/
theorem empty_simulated (worker : Worker) (token : CellToken) :
    Simulated books core l (.empty worker token) .empty []
      (Publish.empty worker token (.new core)) (l, .none) := by
  refine .guard rfl trivial fun _ => ?_
  refine .guard rfl trivial fun _ => ?_
  match hx : core.x with
  | none | some (_, _, .built) => exact .idle rfl trivial
  | some (n, occupant, .committed seq) => exact .moved rfl (.single (.emptied hx)) trivial

end NexusOs.Ledger
