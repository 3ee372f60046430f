import NexusOs.Ledger.Moves

/-!
# Operations as runs of moves: the relation

`Simulates` says of one ended operation that the core and the ledger it leaves are reached by
a run of moves, and that what the caller saw is matched by the moves made (`Seen`). The
modules beside this one show it for every operation.
-/

namespace NexusOs.Ledger

open List Publish

open Resumption (Prog Outcome)
open Transition (Run)

variable {L α : Type} {call : Call} {trace before : Trace} {core core' : Core} {op : Publish}
  {moves : List Move} {books : Books L}

/-- Whether a verb writes: an insert or a commit. -/
def Verb.writes : Verb → Bool
  | .insert _ _ | .insertAck _ | .insertCell _ | .commit => true
  | _ => false

/-- The record a verb inserts. -/
def Verb.inserts : Verb → Option Member
  | .insert _ member => some member
  | _ => none

/-- Whether a result of an append says that nothing was written. -/
def Reply.unwritten : Reply → Bool
  | .facts (.notApplied counted _) => counted.persistence = .notWritten
  | .facts (.rejected _) => true
  | .gating (.refused persistence _) => persistence = .notWritten
  | .acknowledgement (.refused _) => true
  | .acknowledgement (.notApplied persistence) => persistence = .notWritten
  | .cell .notWritten | .cell .stale | .cell (.refused _) | .cell .otherLedger => true
  | _ => false

/-- The result or the lent ticket says that nothing was written. -/
def Label.Unwritten (label : Label) : Prop :=
  (∃ reply, label.reply = some reply ∧ reply.unwritten = true) ∨
    ∃ counted, label.counted = some counted ∧ counted.persistence = .notWritten

/-- Whether a verb was answered by a broken constraint. -/
def Event.constraint : Event → Bool
  | ⟨.insert _ _, some .constraint⟩ | ⟨.insertAck _, some .constraint⟩
  | ⟨.insertCell _, some .constraint⟩ => true
  | _ => false

/-- Every write of a trace was issued by a move, for the record it inserts, and one that was
answered by a broken constraint latched the store. -/
def Written (trace : Trace) (moves : List Move) : Prop :=
  ∀ event ∈ trace, event.verb.writes = true →
    (∃ rows, .issued rows ∈ moves ∧ ∀ member, event.verb.inserts = some member →
      .fact member ∈ rows ∨ .gating member ∈ rows) ∧
    (event.constraint = true → .latched .constraint ∈ moves)

/-- Whether an operation is lent a ticket. -/
def Call.lends : Call → Bool
  | .appendFacts _ _ => true
  | _ => false

/-- The move behind each answer that promises something. -/
def Answers (core : Core) (label : Label) (moves : List Move) : Prop :=
  match label.call, label.reply with
  | .sessionSealed, some (.sessionSealed true) => .sealed ∈ moves
  | .appendFacts _ batch, some (.facts .committed) =>
    ∃ pending : List Bool, pending.length = batch.length ∧
      .paid ((batch.map FactRecord.member).zip pending) ∈ moves
  | .appendFacts _ batch, some (.facts (.notApplied _ (.conflict index _))) =>
    ∃ record, batch[index]? = some record ∧ .conflicted record.member.key ∈ moves
  | .appendGating record, some (.gating (.committed _)) =>
    .told record ∈ moves ∨ .committed record ∈ moves
  | .appendGating record, some (.gating (.refused _ (.conflict _ _))) =>
    .conflicted record.member.key ∈ moves
  | .lookup key, some (.lookup (.conflict _)) => .conflicted key ∈ moves
  | .snapshot _, some (.snapshot (.taken snapshot)) => .taken snapshot ∈ moves
  | .appendAcknowledgement snapshot, some (.acknowledgement (.committed _)) =>
    .acked snapshot.set snapshot.nonce ∈ moves
  | .appendCell _ token, some (.cell (.committed seq)) =>
    (∃ occupant, core.Holds token.cell occupant ∧ .settled token.cell occupant seq ∈ moves) ∨
      token.cell = .x ∧ ∃ n occupant, core.x = some (n, occupant, .committed seq)
  | .resolve _ _, some (.resolve (.corrected token)) =>
    token = core.token .c (core.occupancies .c + 1) ∧
      ∃ record seq exit, moves = [.corrected record seq exit]
  | .resolve _ _, some (.resolve (.conflictPlaced token)) =>
    token = core.token .x (core.occupancies .x + 1) ∧
      ∃ record row, moves = [.contradicted record row]
  | _, _ => True

/-- What the caller saw is matched by the moves made. -/
structure Seen (core : Core) (ledger ledger' : L) (label : Label) (moves : List Move) : Prop where
  written : Written label.trace moves
  unwritten : label.Unwritten → ledger' = ledger
  named : ∀ counted, label.counted = some counted → counted.conflictMember.isSome →
    counted.persistence = .notWritten
  lent : label.counted.isSome → label.call.lends = true
  committed : ∀ record, .committed record ∈ moves →
    label.call = .appendGating record ∧ ∃ seq, label.reply = some (.gating (.committed seq))
  answers : Answers core label moves

/-- The guard after its drop. -/
def finish : Outcome Publish α → Publish
  | .returned op _ => ({ op with done := true } : Publish).drop
  | .unwound op => op.drop

/-- An ended operation is a run of moves that matches what its caller saw. -/
def Simulates (books : Books L) (core : Core) (ledger : L) (call : Call) (wrap : α → Reply)
    (trace : Trace) (outcome : Outcome Publish α) (world : L × Txn) : Prop :=
  ∃ moves, Run (Move.Step books) (core, ledger) moves ((finish outcome).core, world.1) ∧
    Seen core ledger world.1 ⟨call, trace, outcome.value.map wrap, (finish outcome).counted⟩ moves

/-- Every end of the rest `rest` of an operation that already made the calls `before` is a
run of moves. -/
def Simulated (books : Books L) (core : Core) (ledger : L) (call : Call) (wrap : α → Reply)
    (before : Trace) (rest : Prog Verb Verb.Answer Publish α) (world : L × Txn) : Prop :=
  rest.All (Storage.Step books call.family) world fun trace outcome world' =>
    Simulates books core ledger call wrap (before ++ trace) outcome world'

/-- A trace without a write needs no move. -/
def Reads (trace : Trace) : Prop := trace.all (fun event => !event.verb.writes) = true

theorem Reads.written (h : Reads trace) (moves : List Move) : Written trace moves := by
  intro event hmem hwrites
  have hread := all_eq_true.mp h event hmem
  simp [hwrites] at hread

theorem Reads.append {after : Trace} (h : Reads before) (h' : Reads after) :
    Reads (before ++ after) := by
  simp only [Reads, all_append, Bool.and_eq_true]
  exact ⟨h, h'⟩

/-- An operation that unwound promised nothing. -/
theorem answers_none (core : Core) (call : Call) (trace : Trace) (counted : Option Counted)
    (moves : List Move) : Answers core ⟨call, trace, none, counted⟩ moves := by
  cases call <;> trivial

/-! ## Operations that have issued no insert -/

/-- No insert issued, and nothing decided on the lent ticket. -/
structure Quiet (call : Call) (op : Publish) : Prop where
  issued : op.issued = false
  keep : op.keep = false
  count : op.count = none
  done : op.done = false
  lent : op.ticket.isSome → call.lends = true

/-- The core a guard leaves that keeps nothing in U. -/
def Publish.ended (op : Publish) : Core :=
  if op.hold = .nothing then op.core else { op.core with u := none }

theorem finish_returned_core (h : op.keep = false) (value : α) :
    (finish (.returned op value)).core = op.ended := by
  simp only [finish, Publish.drop, Publish.release, Publish.ended, if_true]
  split <;> rfl

theorem finish_returned_counted (op : Publish) (value : α) :
    (finish (.returned op value)).counted = op.counted := by
  simp only [finish, Publish.drop, Publish.release, if_true]
  split
  · rfl
  · split
    · rfl
    · split <;> rfl

theorem Quiet.finish_unwound_core (h : Quiet call op) :
    (finish (.unwound op : Outcome Publish α)).core = op.ended.degrade := by
  simp only [finish, Publish.drop, Publish.release, Publish.unwind, Publish.ended, h.done,
    h.issued, Bool.false_eq_true, if_false]
  split <;> rfl

theorem Quiet.finish_unwound_counted (h : Quiet call op) {counted : Counted}
    (hcounted : (finish (.unwound op : Outcome Publish α)).counted = some counted) :
    counted.persistence = .notWritten := by
  have hcount : (finish (.unwound op : Outcome Publish α)).counted =
      op.ticket.map fun _ => ⟨.notWritten, op.conflict⟩ := by
    simp only [finish, Publish.drop, Publish.release, Publish.unwind, h.done, h.issued, h.count,
      Bool.false_eq_true, if_false, Publish.counted]
    cases op.ticket <;> split <;> simp_all
  rw [hcount] at hcounted
  cases hticket : op.ticket with
  | none => simp [hticket] at hcounted
  | some ticket =>
    rw [hticket] at hcounted
    obtain rfl := Option.some.inj hcounted
    rfl

theorem count_of_counted {counted : Counted} (h : op.counted = some counted) :
    op.count = some counted := by
  obtain ⟨_, -, hcount⟩ := Option.bind_eq_some_iff.mp h
  exact hcount

theorem ticket_of_counted (h : op.counted.isSome) : op.ticket.isSome := by
  obtain ⟨counted, hcounted⟩ := Option.isSome_iff_exists.mp h
  obtain ⟨ticket, hticket, -⟩ := Option.bind_eq_some_iff.mp hcounted
  simp [hticket]

/-- The drop of a guard leaves its ticket. -/
theorem Publish.drop_ticket (op : Publish) : op.drop.ticket = op.ticket := by
  simp only [drop, release]
  split <;> split <;> first | rfl | (split <;> first | rfl | (split <;> rfl))

theorem Quiet.counted (h : Quiet call op) : op.counted = none := by simp [Publish.counted, h.count]

theorem Publish.ended_degrade (op : Publish) :
    ({ op with core := op.core.degrade } : Publish).ended = op.ended.degrade := by
  simp only [ended]
  split <;> rfl

theorem Publish.ended_setLatch (op : Publish) (cause : LatchCause) :
    ({ op with core := op.core.setLatch cause } : Publish).ended = op.ended.setLatch cause := by
  simp only [ended]
  split
  · rfl
  · simp only [Core.setLatch]
    split <;> rfl

theorem setLatch_of_none (h : core.latch = none) (cause : LatchCause) :
    core.setLatch cause = { core with latch := some cause } := by
  simp [Core.setLatch, h]

theorem quiet_new (call : Call) (core : Core) : Quiet call (.new core) :=
  ⟨rfl, rfl, rfl, rfl, nofun⟩

variable {verb : Verb} {answer : Option verb.Answer}

section Rules

variable {l l₀ : L} {wrap : α → Reply} {value : α} {answered : List Move} {txn : Txn}
  {world : L × Txn} {y : Op α} {c : Prop} {next : verb.Answer → Op α}

/-- An operation that lent no ticket, from the core it leaves. -/
theorem Simulates.intro {outcome : Outcome Publish α} {l' : L}
    (hcore : (finish outcome).core = core') (hcounted : (finish outcome).counted = none)
    (hrun : Run (Move.Step books) (core, l) moves (core', l'))
    (hseen : Seen core l l' ⟨call, before, outcome.value.map wrap, none⟩ moves) :
    Simulates books core l call wrap before outcome (l', txn) := by
  refine ⟨moves, ?_, ?_⟩
  · rw [hcore]
    exact hrun
  · rw [hcounted]
    exact hseen

/-- An operation that returns without a write, and says so of its ticket if it counts it. -/
theorem Simulates.returned (hkeep : op.keep = false)
    (hcounted : ∀ counted, op.counted = some counted → counted.persistence = .notWritten)
    (hlent : op.ticket.isSome → call.lends = true) (hreads : Reads before)
    (hrun : Run (Move.Step books) (core, l) moves (op.ended, l))
    (hanswers : Answers core ⟨call, before, some (wrap value), op.counted⟩ moves) :
    Simulates books core l call wrap before (.returned op value) (l, txn) := by
  refine ⟨moves, ?_, ?_⟩
  · rw [finish_returned_core hkeep]
    exact hrun
  rw [finish_returned_counted]
  exact ⟨hreads.written moves, fun _ => rfl, fun c hc _ => hcounted c hc,
    fun h => hlent (ticket_of_counted h),
    fun _ h => (not_committed_of_size_le hrun (Nat.le_refl _) _ h).elim, hanswers⟩

/-- An operation that returns without another call. -/
theorem Simulated.ret (h : Simulates books core l call wrap before (.returned op value) world) :
    Simulated books core l call wrap before (.ret op value) world := by
  rw [Simulated, Prog.all_ret, append_nil]
  exact h

/-- A branch of an operation. -/
theorem Simulated.ite [Decidable c] {x : Op α}
    (hthen : c → Simulated books core l call wrap before (x op) world)
    (helse : ¬c → Simulated books core l call wrap before (y op) world) :
    Simulated books core l call wrap before ((if c then x else y) op) world := by
  split
  · exact hthen ‹c›
  · exact helse ‹¬c›

/-- A call of a verb, and what follows each answer. -/
theorem Simulated.io
    (hunwound : ∀ world', Storage.Step books call.family world ⟨verb, none⟩ world' →
      Simulates books core l call wrap (before ++ [⟨verb, none⟩]) (.unwound op) world')
    (hnext : ∀ answer world', Storage.Step books call.family world ⟨verb, some answer⟩ world' →
      Simulated books core l call wrap (before ++ [⟨verb, some answer⟩]) (next answer op) world') :
    Simulated books core l call wrap before ((Ledger.io verb >>= next) op) world := by
  refine Prog.all_call.mpr ⟨hunwound, fun answer world' hstep => ?_⟩
  have h := hnext answer world' hstep
  simp only [Simulated, append_assoc] at h
  exact h

/-- An operation rolls back. -/
theorem Simulated.rollback {next : Persistence → Op α}
    (hunwound : ∀ l', Storage.Undecided books l₀ txn l' →
      Simulates books core l call wrap (before ++ [⟨.rollback, none⟩]) (.unwound op) (l', .none))
    (hundone : Simulated books core l call wrap
      (before ++ [⟨.rollback, some .undone⟩]) (next .notWritten op) (l₀, .none))
    (hunknown : ∀ l', Storage.Undecided books l₀ txn l' →
      Simulated books core l call wrap (before ++ [⟨.rollback, some .unknown⟩])
        (next .uncertain { op with core := op.core.degrade }) (l', .none)) :
    Simulated books core l call wrap before ((Publish.rollback >>= next) op) (l₀, txn) := by
  have hbind : (Publish.rollback >>= next) op =
      (Ledger.io .rollback >>= fun answer => Publish.rolled answer >>= next) op := rfl
  rw [hbind]
  refine .io (fun world hstep => ?_) (fun answer world hstep => ?_)
  · obtain ⟨l', hl', rfl⟩ := hstep
    exact hunwound l' hl'
  cases answer with
  | undone =>
    obtain rfl := hstep
    exact hundone
  | unknown =>
    obtain ⟨l', hl', rfl⟩ := hstep
    exact hunknown l' hl'

section Quiet

variable (hq : Quiet call op) (hreads : Reads before)
  (hrun : Run (Move.Step books) (core, l) moves (op.ended, l))

include hq hreads hrun

/-- A quiet operation that returns. -/
theorem Quiet.returned (hanswers : Answers core ⟨call, before, some (wrap value), none⟩ moves) :
    Simulates books core l call wrap before (.returned op value) (l, txn) := by
  exact .returned hq.keep (by simp [hq.counted]) hq.lent hreads hrun hanswers

/-- A quiet operation that unwinds. -/
theorem Quiet.unwound : Simulates books core l call wrap before (.unwound op) (l, txn) := by
  have hdegraded := hrun.append (.single .degraded)
  refine ⟨moves ++ [.degraded], ?_, ?_⟩
  · rw [hq.finish_unwound_core]
    exact hdegraded
  refine ⟨hreads.written _, fun _ => rfl, fun _ h _ => hq.finish_unwound_counted h, fun h => ?_,
    fun _ h => (not_committed_of_size_le hdegraded (Nat.le_refl _) _ h).elim,
    answers_none _ _ _ _ _⟩
  have hticket := ticket_of_counted h
  rw [finish, op.drop_ticket] at hticket
  exact hq.lent hticket

/-- A quiet operation calls a verb that writes nothing. -/
theorem Simulated.read
    (hverb : verb.writes = false ∧ verb ≠ .rollback) (hnext : ∀ answer, books.truth l verb answer →
      Simulated books core l call wrap (before ++ [⟨verb, some answer⟩]) (next answer op)
        (l, .none)) :
    Simulated books core l call wrap before ((Ledger.io verb >>= next) op) (l, .none) := by
  refine .io (fun world hstep => ?_) (fun answer world hstep => ?_)
  · have hnone : Txn.none.unwinding call.family verb = .none := by
      cases verb <;> first | rfl | cases hverb.1
    obtain rfl := Storage.unwound_none hstep hnone
    exact hq.unwound (hreads.append (by simp [Reads, hverb.1])) hrun
  · have hworld : books.truth l verb answer ∧ world = (l, .none) := by
      cases verb with
      | rollback => exact absurd rfl hverb.2
      | commit | insert | insertAck | insertCell => cases hverb.1
      | _ => exact hstep
    obtain ⟨htruth, rfl⟩ := hworld
    exact hnext answer htruth

/-- A quiet operation rolls back and returns; `answered` are the moves only its answer
makes. -/
theorem Simulated.rollback_pure
    (hanswered : Run (Move.Step books) (op.ended, l) answered (op.ended, l))
    (hanswers : ∀ trace later,
      Answers core ⟨call, trace, some (wrap value), none⟩ (moves ++ answered ++ later)) :
    Simulated books core l call wrap before
      ((Publish.rollback >>= fun _ => pure value) op) (l, .none) := by
  refine .rollback (fun l' hl' => ?_) (.ret ?_) (fun l' hl' => .ret ?_)
  · obtain rfl := Storage.undecided_none.mp hl'
    exact hq.unwound (hreads.append rfl) hrun
  · refine hq.returned (hreads.append rfl) (hrun.append hanswered) ?_
    simpa using hanswers _ []
  obtain rfl := Storage.undecided_none.mp hl'
  have hq' : Quiet call { op with core := op.core.degrade } :=
    ⟨hq.issued, hq.keep, hq.count, hq.done, hq.lent⟩
  have hrun' := (hrun.append hanswered).append (.single .degraded)
  rw [← ended_degrade] at hrun'
  exact hq'.returned (hreads.append rfl) hrun' (hanswers _ _)

end Quiet

section

variable [Decidable c] (hreads : Reads before)

include hreads

/-- An operation that only changed the core returns. -/
theorem Simulated.moved (hrun : Run (Move.Step books) (core, l) moves (core', l))
    (hanswers : Answers core ⟨call, before, some (wrap value), none⟩ moves) :
    Simulated books core l call wrap before
      (.ret { new core with core := core' } value) (l, txn) :=
  .ret (Quiet.returned ⟨rfl, rfl, rfl, rfl, nofun⟩ hreads hrun hanswers)

/-- An operation that returns without a move, with an answer that promises nothing. -/
theorem Simulated.idle (hanswers : Answers core ⟨call, before, some (wrap value), none⟩ []) :
    Simulated books core l call wrap before (.ret (.new core) value) (l, txn) :=
  .moved hreads (.nil _) hanswers

/-- A refusal on a condition, and the rest of an operation. -/
theorem Simulated.guard (hanswers : Answers core ⟨call, before, some (wrap value), none⟩ [])
    (helse : ¬c → Simulated books core l call wrap before (y (.new core)) (l, txn)) :
    Simulated books core l call wrap before ((if c then pure value else y) (.new core)) (l, txn) :=
  .ite (fun _ => .idle hreads hanswers) helse

/-- An operation that ends by degrading the store. -/
theorem Simulated.degraded
    (hanswers : Answers core ⟨call, before, some (wrap value), none⟩ [.degraded]) :
    Simulated books core l call wrap before
      (.ret { new core with core := core.degrade } value) (l, txn) :=
  .moved hreads (.single .degraded) hanswers

/-- The first verbs of an operation, which write nothing. -/
theorem Simulated.readNew
    (hverb : verb.writes = false ∧ verb ≠ .rollback) (hnext : ∀ answer, books.truth l verb answer →
      Simulated books core l call wrap (before ++ [⟨verb, some answer⟩]) (next answer (.new core))
        (l, .none)) :
    Simulated books core l call wrap before ((Ledger.io verb >>= next) (.new core)) (l, .none) :=
  .read (quiet_new call core) hreads (.nil _) hverb hnext

end

variable {next : Unit → Op α}

section

variable (hrun : Run (Move.Step books) (core, l) moves (op.ended, l))

include hrun

variable (hnext : ∀ core' moves',
  Run (Move.Step books) (core, l) moves' (({ op with core := core' } : Publish).ended, l) →
  Simulated books core l call wrap before (next () { op with core := core' }) world)

include hnext

/-- A verb failed a quiet operation. -/
theorem Simulated.failed :
    Simulated books core l call wrap before ((failed >>= next) op) world := by
  have hrun' := hrun.append (.single .degraded)
  rw [← ended_degrade] at hrun'
  exact hnext _ _ hrun'

/-- A read failed a quiet operation. -/
theorem Simulated.readFailed {corrupt : Bool} :
    Simulated books core l call wrap before ((readFailed corrupt >>= next) op) world := by
  have hrun' := hrun.append (.single .degraded)
  rw [← ended_degrade] at hrun'
  cases corrupt with
  | false => exact hnext _ _ hrun'
  | true =>
    have hlatched : Move.Step books (({ op with core := op.core.degrade } : Publish).ended, l)
        (.latched .corrupt) _ := .latched trivial
    have hrun'' := hrun'.append (.single hlatched)
    rw [← ended_setLatch] at hrun''
    exact hnext _ _ hrun''

end

/-- An operation latches a store that was not latched. -/
theorem Simulated.latch {cause : LatchCause} (hnone : op.core.latch = none)
    (h : Simulated books core l call wrap before
      (next () { op with core := { op.core with latch := some cause } }) world) :
    Simulated books core l call wrap before ((latch cause >>= next) op) world := by
  rw [← setLatch_of_none hnone] at h
  exact h

/-- An operation commits. -/
theorem Simulated.commit {next : Commit → Op α}
    (hunwound : ∀ l', Storage.Undecided books l₀ txn l' →
      Simulates books core l call wrap (before ++ [⟨.commit, none⟩]) (.unwound op) (l', .none))
    (hdurable : Simulated books core l call wrap
      (before ++ [⟨.commit, some .durable⟩]) (next .durable op)
        (books.append l₀ txn.inserted, .none))
    (hunknown : ∀ world, Storage.InDoubt books l₀ txn world →
      Simulated books core l call wrap (before ++ [⟨.commit, some .unknown⟩]) (next .unknown op)
        world) :
    Simulated books core l call wrap before ((Ledger.io .commit >>= next) op) (l₀, txn) := by
  refine .io (fun world hstep => ?_) (fun answer world hstep => ?_)
  · obtain ⟨l', hl', rfl⟩ := hstep
    exact hunwound l' hl'
  cases answer with
  | durable =>
    obtain rfl := hstep
    exact hdurable
  | unknown => exact hunknown world hstep

end Rules

/-! ## Operations that have issued an insert -/

theorem Written.mono {moves moves' : List Move} (h : Written trace moves) (hsub : moves ⊆ moves') :
    Written trace moves' := by
  intro event hmem hwrites
  obtain ⟨⟨rows, hrows, hinserts⟩, hconstraint⟩ := h event hmem hwrites
  exact ⟨⟨rows, hsub hrows, hinserts⟩, fun h => hsub (hconstraint h)⟩

/-- A call that writes nothing needs no move. -/
theorem Written.snoc_read (h : Written before moves) (hverb : verb.writes = false) :
    Written (before ++ [⟨verb, answer⟩]) moves := by
  intro event hmem hwrites
  rcases mem_append.mp hmem with hmem | hmem
  · exact h event hmem hwrites
  · obtain rfl := mem_singleton.mp hmem
    rw [hverb] at hwrites
    cases hwrites

/-- A call that writes is matched by the move that issued its row. -/
theorem Written.snoc_write (h : Written before moves)
    {rows : List LedgerRow} (hissued : .issued rows ∈ moves)
    (hrow : ∀ member, verb.inserts = some member → .fact member ∈ rows ∨ .gating member ∈ rows)
    (hconstraint : Event.constraint ⟨verb, answer⟩ = true → .latched .constraint ∈ moves) :
    Written (before ++ [⟨verb, answer⟩]) moves := by
  intro event hmem hwrites
  rcases mem_append.mp hmem with hmem | hmem
  · exact h event hmem hwrites
  · obtain rfl := mem_singleton.mp hmem
    exact ⟨⟨rows, hissued, hrow⟩, hconstraint⟩

/-- The moves that leave the latch at `latch`, starting from the latch of `core`, once rows may
have been added to `ledger`. -/
def LatchedBy (books : Books L) (core : Core) (ledger : L) (latch : Option LatchCause)
    (moves : List Move) : Prop :=
  ∀ (core' : Core) (more : List LedgerRow), core'.latch = core.latch → core'.c = core.c →
    core'.x = core.x → Run (Move.Step books) (core', books.append ledger more) moves
      ({ core' with latch := latch }, books.append ledger more)

theorem latchedBy_same (books : Books L) (core : Core) (ledger : L) :
    LatchedBy books core ledger core.latch [] := by
  intro core' more h _ _
  rw [← h]
  exact .nil _

variable {ledger : L} {latch : Option LatchCause}

/-- An insert that is answered by a broken constraint latches the store. -/
theorem latchedBy_constraint {done rest : List LedgerRow} {row : LedgerRow} (h : core.latch = none)
    (hrow : Insertable books core ledger (done ++ row :: rest))
    (hbreaks : books.breaks ledger done row) :
    LatchedBy books core ledger (some .constraint) [.latched .constraint] := by
  intro core' more hlatch hc hx
  rw [← setLatch_of_none (hlatch.trans h)]
  exact .single (.latched ⟨core, ledger, more, done, rest, row, hc.symm, hx.symm, rfl, hrow,
    hbreaks⟩)

theorem LatchedBy.run {ledger' : L} (h : LatchedBy books core ledger latch moves)
    (hledger : ledger' = ledger ∨ ∃ more, ledger' = books.append ledger more)
    (hlatch : core'.latch = core.latch) (hc : core'.c = core.c) (hx : core'.x = core.x) :
    Run (Move.Step books) (core', ledger') moves ({ core' with latch := latch }, ledger') := by
  rcases hledger with rfl | ⟨more, rfl⟩
  · have hrun := h core' [] hlatch hc hx
    rw [books.append_nil] at hrun
    exact hrun
  · exact h core' more hlatch hc hx

/-- The moves that latch the store commit nothing. -/
theorem LatchedBy.not_committed (h : LatchedBy books core ledger latch moves) (record : GatingRecord) :
    .committed record ∉ moves :=
  not_committed_of_size_le (h core [] rfl rfl rfl) (Nat.le_refl _) record

end NexusOs.Ledger
