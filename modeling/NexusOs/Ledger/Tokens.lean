import NexusOs.Ledger.Admission

/-!
# Cell tokens

A token names one occupancy of one cell. Occupancies are numbered by a counter that every
placement advances, so a token whose occupancy has ended never names another one. An operation
given such a token, or a worker of another ledger, does nothing.
-/

namespace NexusOs.Ledger

open Option System Publish

open Transition (Run)
open Exchange (Attempt Flight)
open Resumption (Prog Op)
open Store (AnyStorage)

variable {L α : Type} {books : Books L} {state next : Core × L} {move : Move} {core core' : Core}
  {token : CellToken} {label : Label} {guard : Publish} {call : Call}

/-! ## Numbers of occupancies -/

/-- The counters of the cells never fall. A cell keeps its occupancy, is emptied, or is given the
next number of its counter. -/
theorem Move.Step.numbers (h : Move.Step books state move next) (cell : Cell) :
    state.1.occupancies cell ≤ next.1.occupancies cell ∧
      (next.1.occupancy cell = state.1.occupancy cell ∨ next.1.occupancy cell = none ∨
        (next.1.occupancy cell = some (state.1.occupancies cell + 1) ∧
          next.1.occupancies cell = state.1.occupancies cell + 1)) := by
  have hspend : ∀ (core : Core) (filled : Cell),
      core.occupancies cell ≤ (core.spend filled).occupancies cell := by
    intro core filled
    by_cases heq : cell = filled
    · simp [Core.spend, heq]
    · simp [Core.spend, heq]
  cases h with
  | spent => exact ⟨hspend _ _, .inl rfl⟩
  | held =>
    refine ⟨hspend _ _, ?_⟩
    cases cell with
    | u => exact .inr (.inr ⟨rfl, rfl⟩)
    | c | x => exact .inl rfl
  | explained =>
    refine ⟨hspend _ _, ?_⟩
    cases cell with
    | x => exact .inr (.inr ⟨rfl, rfl⟩)
    | u | c => exact .inl rfl
  | corrected =>
    refine ⟨hspend _ _, ?_⟩
    cases cell with
    | c => exact .inr (.inr ⟨rfl, rfl⟩)
    | u => exact .inr (.inl rfl)
    | x => exact .inl rfl
  | contradicted =>
    refine ⟨hspend _ _, ?_⟩
    cases cell with
    | x => exact .inr (.inr ⟨rfl, rfl⟩)
    | u => exact .inr (.inl rfl)
    | c => exact .inl rfl
  | latched | acked =>
    simp only [setLatch_eq, raiseFrontier_eq]
    exact ⟨Nat.le_refl _, .inl rfl⟩
  | released =>
    refine ⟨Nat.le_refl _, ?_⟩
    cases cell with
    | u => exact .inr (.inl rfl)
    | c | x => exact .inl rfl
  | acknowledged =>
    rw [raiseFrontier_eq]
    refine ⟨Nat.le_refl _, ?_⟩
    cases cell with
    | u => exact .inr (.inl rfl)
    | c | x => exact .inl rfl
  | emptied =>
    refine ⟨Nat.le_refl _, ?_⟩
    cases cell with
    | x => exact .inr (.inl rfl)
    | u | c => exact .inl rfl
  | settled _ hholds =>
    obtain ⟨rfl, n, -⟩ | ⟨rfl, n, hx⟩ := hholds
    · refine ⟨Nat.le_refl _, ?_⟩
      cases cell with
      | c => exact .inr (.inl rfl)
      | u | x => exact .inl rfl
    · obtain ⟨_, hsettle, -⟩ := settle_x hx _
      rw [hsettle]
      refine ⟨Nat.le_refl _, .inl ?_⟩
      cases cell with
      | x => simp [Core.occupancy, hx]
      | u | c => rfl
  | _ => exact ⟨Nat.le_refl _, .inl rfl⟩

/-- The number of every occupancy was given by its counter. -/
def Numbered (core : Core) : Prop :=
  ∀ cell n, core.occupancy cell = some n → n ≤ core.occupancies cell

theorem Move.Step.numbered (h : Move.Step books state move next) (hstate : Numbered state.1) :
    Numbered next.1 := by
  intro cell n hn
  obtain ⟨hle, hsame | hnone | ⟨hfilled, hcount⟩⟩ := h.numbers cell
  · exact (hstate cell n (hsame.symm.trans hn)).trans hle
  · cases hnone.symm.trans hn
  · cases hfilled.symm.trans hn
    exact Nat.le_of_eq hcount.symm

/-- The number of the token was given, and its cell has another occupancy or none. -/
structure Spent (token : CellToken) (core : Core) : Prop where
  given : token.occupancy ≤ core.occupancies token.cell
  stale : core.occupancy token.cell ≠ some token.occupancy

/-- A token that is spent stays so. -/
theorem Spent.step (h : Spent token state.1) (hstep : Move.Step books state move next) :
    Spent token next.1 := by
  obtain ⟨hle, hcell⟩ := hstep.numbers token.cell
  refine ⟨h.given.trans hle, fun hnames => ?_⟩
  obtain hsame | hnone | ⟨hfilled, -⟩ := hcell
  · exact h.stale (hsame.symm.trans hnames)
  · cases hnone.symm.trans hnames
  · have heq := some.inj (hfilled.symm.trans hnames)
    have hgiven := h.given
    omega

/-- A spent token names no cell. -/
theorem Spent.names (h : Spent token core) (cell : Cell) : core.names token cell = false := by
  by_contra hnames
  obtain ⟨-, rfl, hoccupancy⟩ := Core.names_iff.mp (Bool.not_eq_false _ ▸ hnames)
  exact h.stale hoccupancy

/-! ## Where tokens come from -/

/-- The tokens of an agenda. -/
def Agenda.tokens (agenda : Agenda) : List CellToken :=
  agenda.u.toList ++ agenda.c.toList ++ (agenda.x.map Prod.fst).toList

/-- The agenda gives a token for each occupied cell. -/
theorem mem_agenda_tokens :
    token ∈ core.agenda.tokens ↔
      ∃ cell n, core.occupancy cell = some n ∧ token = core.token cell n := by
  simp only [Agenda.tokens, Core.agenda, List.mem_append, mem_toList, map_eq_some_iff, map_map]
  constructor
  · rintro ((⟨⟨n, _⟩, h, rfl⟩ | ⟨⟨n, _⟩, h, rfl⟩) | ⟨⟨n, _, _⟩, h, rfl⟩)
    · exact ⟨.u, n, by simp [Core.occupancy, h], rfl⟩
    · exact ⟨.c, n, by simp [Core.occupancy, h], rfl⟩
    · exact ⟨.x, n, by simp [Core.occupancy, h], rfl⟩
  · rintro ⟨cell, n, h, rfl⟩
    cases cell with
    | u =>
      obtain ⟨entry, hentry, rfl⟩ := map_eq_some_iff.mp h
      exact .inl (.inl ⟨entry, hentry, rfl⟩)
    | c =>
      obtain ⟨entry, hentry, rfl⟩ := map_eq_some_iff.mp h
      exact .inl (.inr ⟨entry, hentry, rfl⟩)
    | x =>
      obtain ⟨entry, hentry, rfl⟩ := map_eq_some_iff.mp h
      exact .inr ⟨entry, hentry, rfl⟩

/-- The operation is a `resolve` that gave the token. -/
def Label.Gives (label : Label) (token : CellToken) : Prop :=
  ∃ worker used, label.call = .resolve worker used ∧
    (label.reply = some (.resolve (.corrected token)) ∨
      label.reply = some (.resolve (.conflictPlaced token)))

/-- A token that `resolve` gives is one the agenda then has. -/
theorem Store.Step.gives (h : Store.Step core label core') (hgives : label.Gives token) :
    token ∈ core'.agenda.tokens := by
  obtain ⟨size, hbooks⟩ := h.booksStep
  obtain ⟨moves, hrun, hseen⟩ := hbooks.moves
  have hanswers := hseen.answers
  obtain ⟨worker, used, hcall, hreply | hreply⟩ := hgives
  · rw [Answers, hcall, hreply] at hanswers
    obtain ⟨rfl, record, seq, exit, rfl⟩ := hanswers
    obtain ⟨_, hmove, hnil⟩ := Run.cons_iff.mp hrun
    obtain rfl := Run.nil_iff.mp hnil
    cases hmove with
    | corrected => exact mem_agenda_tokens.mpr ⟨.c, _, rfl, rfl⟩
  · rw [Answers, hcall, hreply] at hanswers
    obtain ⟨rfl, record, row, rfl⟩ := hanswers
    obtain ⟨_, hmove, hnil⟩ := Run.cons_iff.mp hrun
    obtain rfl := Run.nil_iff.mp hnil
    cases hmove with
    | contradicted => exact mem_agenda_tokens.mpr ⟨.x, _, rfl, rfl⟩

/-! ## Operations that do nothing -/

/-- The worker is of another ledger, or the token does not name the present occupancy of the cell
the operation is about. -/
def Call.Idle (core : Core) : Call → Prop
  | .resolve worker token => worker.ledger ≠ core.shared.address ∨ core.names token .u = false
  | .appendCell worker token =>
    worker.ledger ≠ core.shared.address ∨ core.names token .c = false ∧ core.names token .x = false
  | .empty worker token => worker.ledger ≠ core.shared.address ∨ core.names token .x = false
  | _ => False

/-- A body whose first test fails, or whose second does, returns at once. -/
theorem ite_returns {foreign stale : Prop} [Decidable foreign] [Decidable stale]
    {first second : α} {rest : Ledger.Op α} {op : Publish} (h : foreign ∨ stale) :
    ∃ value, (if foreign then pure first else if stale then pure second else rest) op =
      .ret op value := by
  by_cases hforeign : foreign
  · rw [if_pos hforeign]
    exact ⟨first, rfl⟩
  · rw [if_neg hforeign, if_pos (h.resolve_left hforeign)]
    exact ⟨second, rfl⟩

/-- An operation whose body returns at once. -/
theorem prog_of_returns {wrap : α → Reply} {body : Ledger.Op α}
    (hbody : call.body = wrap <$> body) (h : ∃ value, body (.new core) = .ret (.new core) value) :
    ∃ reply, call.prog core = .ret { new core with done := true } reply := by
  obtain ⟨value, hvalue⟩ := h
  rw [Call.prog, hbody, Op.map_run, hvalue]
  exact ⟨wrap value, rfl⟩

/-- An idle operation returns at once. -/
theorem Call.Idle.prog (h : call.Idle core) :
    ∃ reply, call.prog core = .ret { new core with done := true } reply := by
  cases call with
  | resolve worker token =>
    have hreturns : ∃ value, Publish.resolve worker token (.new core) = .ret (.new core) value :=
      ite_returns h
    exact prog_of_returns rfl hreturns
  | appendCell worker token =>
    have hstale : worker.ledger ≠ core.shared.address ∨
        (core.names token .c || core.names token .x) = false :=
      h.imp_right fun hnames => Bool.or_eq_false_iff.mpr hnames
    have hreturns : ∃ value, cell worker token (.new core) = .ret (.new core) value :=
      ite_returns hstale
    exact prog_of_returns rfl hreturns
  | empty worker token =>
    have hreturns : ∃ value, Publish.empty worker token (.new core) = .ret (.new core) value :=
      ite_returns h
    exact prog_of_returns rfl hreturns
  | _ => exact h.elim

/-- An idle operation calls no verb, and leaves the core and the tickets. -/
theorem Call.Idle.ends (h : label.call.Idle core) (hends : label.Ends AnyStorage core () guard ()) :
    label.trace = [] ∧ guard.core = core ∧ guard.counted = none := by
  obtain ⟨reply, hprog⟩ := h.prog
  obtain ⟨outcome, hexec, -, rfl, -⟩ := hends
  rw [hprog] at hexec
  generalize label.trace = trace at hexec
  cases hexec
  exact ⟨rfl, rfl, rfl⟩

/-! ## The system -/

variable {system : System}

/-- An idle operation changes neither the core nor the word. -/
theorem System.Accounted.serve_idle (h : system.Accounted) {lent : Option (Nat × Ticket)}
    (hready : system.Ready (.publish label guard lent)) (hidle : label.call.Idle system.core) :
    label.trace = [] ∧ (system.serve (.publish label guard lent)).core = system.core ∧
      (system.serve (.publish label guard lent)).word = system.word := by
  obtain ⟨htrace, hcore, hcounted⟩ := hidle.ends hready.1
  refine ⟨htrace, hcore, ?_⟩
  rw [serve_word, Request.step, publication, hcounted, hcore]
  exact publishStep_same _ system.core.isStatus_flags h.status

variable {limits : Limits} {address : LedgerId} {before mid after : List (Attempt Request Word)}
  {first middle last : System × List (Flight Request Word)}

/-- Tokens, over every run of a ledger's loops. A token of the agenda that at some later point does
not name its cell, as when the cell was emptied, names no cell from then on; and the tokens that
`resolve` gives are those of the agenda. An operation whose token does not name the present
occupancy, or whose worker is of another ledger, calls no verb, leaves the core as it is and
publishes the word it finds. -/
theorem run_stale_token_idle
    (hbefore : Run service.Step (new limits address, []) before first)
    (hmid : Run service.Step first mid middle)
    (hafter : Run service.Step middle after last) :
    (∀ token ∈ first.1.core.agenda.tokens, middle.1.core.names token token.cell = false →
      ∀ cell, last.1.core.names token cell = false) ∧
    ∀ label guard lent present next,
      service.Step last (.served (.publish label guard lent) present) next →
      (∀ token, label.Gives token → token ∈ next.1.core.agenda.tokens) ∧
      (label.call.Idle last.1.core →
        label.trace = [] ∧ next.1.core = last.1.core ∧ next.1.word = last.1.word) := by
  have hnil := Exchange.flying_nil service (new limits address)
  have hfly : ∀ {attempts state}, Run service.Step (new limits address, []) attempts
      state → service.Flying state.1 (state.2.map Flight.request) :=
    fun hrun => hrun.invariant (fun hs ht => ht.flying hs) hnil
  have hfirst := Exchange.run_atomic hbefore hnil
  have hmiddle := Exchange.run_atomic hmid (hfly hbefore)
  have hlast := Exchange.run_atomic hafter (hfly (hbefore.append hmid))
  refine ⟨fun token hmem hstale => ?_, fun label guard lent present next hstep => ?_⟩
  · have hnumbered : Numbered first.1.core := core_invariant Numbered
      (fun hs hmove => hmove.numbered hs) hfirst (by rintro (_ | _ | _) n hn <;> cases hn)
    obtain ⟨cell, n, hn, rfl⟩ := mem_agenda_tokens.mp hmem
    have hshared : middle.1.core.shared = first.1.core.shared :=
      core_invariant (fun core => core.shared = first.1.core.shared)
        (fun hs hmove => hmove.shared.trans hs) hmiddle rfl
    have hgiven : n ≤ middle.1.core.occupancies cell :=
      core_invariant (fun core => n ≤ core.occupancies cell)
        (fun hs hmove => hs.trans (hmove.numbers cell).1) hmiddle (hnumbered cell n hn)
    have hspent : Spent (first.1.core.token cell n) middle.1.core := by
      refine ⟨hgiven, fun hoccupancy => ?_⟩
      rw [Core.names_iff.mpr ⟨by rw [hshared]; rfl, rfl, hoccupancy⟩] at hstale
      cases hstale
    exact (core_invariant (Spent _) (fun hs hmove => hs.step hmove) hlast hspent).names
  · have hflying := hfly ((hbefore.append hmid).append hafter)
    have haccounted : last.1.Accounted := ((hfirst.append hmiddle).append hlast).invariant
      (fun hs hstep => hs.atomic hstep) (accounted_new limits address)
    cases hstep with
    | served hpresent =>
      have hready := hflying.ready (.publish label guard lent) (by simp)
      exact ⟨fun token hgives => Store.Step.gives ⟨guard, hready.1, rfl⟩ hgives,
        fun hidle => haccounted.serve_idle hready hidle⟩

/-- A store that holds a gating record whose append unwound. -/
def heldCore : Core := (Core.opened ⟨1, 1⟩ 0).holdU (.gating ⟨⟨1, 1⟩, none⟩ .unwound)

/-- A gating append unwinds, and its record is resolved: it is not in the ledger. U's token then
names no cell, and a second `resolve` with it calls no verb. -/
theorem run_stale_token_idle_of_resolved :
    ∃ (token : CellToken) (last : System) (again : Label), token ∈ heldCore.agenda.tokens ∧
      (∀ cell, last.core.names token cell = false) ∧ again.call = .resolve ⟨0⟩ token ∧
      again.trace = [] := by
  let gating : Request :=
    .publish ⟨.appendGating ⟨⟨1, 1⟩, none⟩, [⟨.open, some (.got ())⟩,
        ⟨.facts 0 ⟨⟨1, 1⟩, none⟩, some (.got ⟨none, none, none, none, false⟩)⟩,
        ⟨.insert 0 ⟨⟨1, 1⟩, none⟩, none⟩], none, none⟩
      { new (.opened ⟨1, 1⟩ 0) with
        core := heldCore, hold := .gating, issued := true, keep := true } none
  let barrier : Request :=
    .publish ⟨.barrier ⟨0⟩, [⟨.run, some true⟩], some (.barrier .passed), none⟩
      { new heldCore with core := { heldCore with phase := .resolving }, done := true } none
  let resolving : Request :=
    .publish ⟨.resolve ⟨0⟩ ⟨0, .u, 1⟩, [⟨.row 1, some (.got none)⟩], some (.resolve .absent), none⟩
      { new { heldCore with phase := .resolving } with
        core := releaseU heldCore, done := true } none
  let again : Request :=
    .publish ⟨.resolve ⟨0⟩ ⟨0, .u, 1⟩, [], some (.resolve .stale), none⟩
      { new (releaseU heldCore) with done := true } none
  let opened := (new ⟨1, 1⟩ 0).serve opening
  let held := opened.serve gating
  let passed := held.serve barrier
  let resolved := passed.serve resolving
  have hgating : opened.Ready gating :=
    ⟨⟨_, AnyStorage.answer (AnyStorage.answer (.unwind trivial)), rfl, rfl, rfl⟩, rfl⟩
  have hbarrier : held.Ready barrier := ⟨⟨_, AnyStorage.answer (.ret _ _ _), rfl, rfl, rfl⟩, rfl⟩
  have hresolving : passed.Ready resolving :=
    ⟨⟨_, AnyStorage.answer (.ret _ _ _), rfl, rfl, rfl⟩, rfl⟩
  have hagain : resolved.Ready again := ⟨⟨_, .ret _ _ _, rfl, rfl, rfl⟩, rfl⟩
  have hlast : Run service.Step (resolved, []) [.began again]
      (resolved, [⟨again, again.guess⟩]) := .single (.began hagain (List.forall_mem_nil _))
  have hrun := run_stale_token_idle
    ((run_alone ready_opening (by decide)).append (run_alone hgating (by decide)))
    ((run_alone hbarrier (by decide)).append (run_alone hresolving (by decide)))
    hlast
  have hserved := hrun.2 _ _ _ _ _
    (@Exchange.Service.Step.served _ _ _ _ _ _ [] [] again _ (by decide))
  exact ⟨⟨0, .u, 1⟩, resolved, _, by decide, hrun.1 _ (by decide) (by decide), rfl,
    (hserved.2 (.inr (by decide))).1⟩

end NexusOs.Ledger
