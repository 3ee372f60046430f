import NexusOs.Ledger.Store
import NexusOs.Lib.Transition

/-!
# What a store operation can do

An operation has dozens of exits, but its effect on the core and the ledger is made of a few
moves. `Move.Step` says what each move changes and when it can be made; the guards are what
the operations tested, in terms of what the storage truthfully reported. `Simulation.lean`
shows that every operation, on return and on unwind, is a run of moves. Invariants are then
proved move by move.
-/

namespace NexusOs.Ledger

variable {L : Type} {core : Core} {cell : Cell}

namespace Core

variable {key : RecordKey} {explained : Option Seq}

variable (core)

/-- Open and not latched: the only state in which the ledger is written. -/
def Live : Prop := core.session = .open ∧ core.latch = none

/-- Live and healthy with every cell empty: where U may be held. -/
def Ready : Prop :=
  core.Live ∧ core.phase = .healthy ∧ core.u = none ∧ core.c = none ∧ core.x = none

/-- U's occupant may be resolved. -/
def Resolving (occupant : Occupant) : Prop :=
  core.Live ∧ core.phase = .resolving ∧ core.c = none ∧ core.x = none ∧
    ∃ n, core.u = some (n, occupant)

/-- A cell has an occupancy number left. -/
def Room (cell : Cell) : Prop := core.occupancies cell + 1 < 2 ^ 64

/-- `cell` is C or X and holds `occupant`, which is not yet known to be in the ledger. -/
def Holds (cell : Cell) (occupant : Occupant) : Prop :=
  (cell = .c ∧ ∃ n, core.c = some (n, occupant)) ∨
    (cell = .x ∧ ∃ n, core.x = some (n, occupant, .built))

/-- The occupant of a cell. -/
def occupant (core : Core) : Cell → Option Occupant
  | .u => core.u.map fun (_, occupant) => occupant
  | .c => core.c.map fun (_, occupant) => occupant
  | .x => core.x.map fun (_, occupant, _) => occupant

/-- What the cells keep to between operations. -/
structure CellsOk (core : Core) : Prop where
  u_alone : core.u.isSome → core.c = none ∧ core.x = none ∧ core.phase ≠ .healthy
  resolving : core.phase = .resolving → core.u.isSome
  u_kind : ∀ n occupant, core.u = some (n, occupant) →
    (∃ set nonce, occupant = .acknowledgement set nonce) ∨
      ∃ record exit, occupant = .gating record exit ∧ exit ≠ .inCall
  c_kind : ∀ n occupant, core.c = some (n, occupant) →
    ∃ about seq exit, occupant = .correction about seq exit
  x_kind : ∀ n occupant stage, core.x = some (n, occupant, stage) →
    ∃ original cause, occupant = .explanation original cause

/-- A number of a cell is spent. -/
def spend (cell : Cell) : Core :=
  { core with occupancies := Function.update core.occupancies cell (core.occupancies cell + 1) }

/-- U is held by `occupant` beyond the call that placed it. -/
def holdU (occupant : Occupant) : Core :=
  { core.spend .u with u := some (core.occupancies .u + 1, occupant), phase := .needBarrier }

/-- C is given `occupant`. -/
def putC (occupant : Occupant) : Core :=
  { core.spend .c with c := some (core.occupancies .c + 1, occupant) }

/-- X is given an explanation. -/
def putX (original : RecordKey) (cause : Cause) : Core :=
  { core.spend .x with
    x := some (core.occupancies .x + 1, .explanation original cause, .built) }

/-- The key's conflict is in the table, or explained in X. -/
def Remembers (key : RecordKey) : Prop :=
  core.refusals.lookup key ≠ none ∨
    ∃ n cause stage, core.x = some (n, .explanation key cause, stage)

variable {core}

theorem Holds.occupant {occupant : Occupant} (h : core.Holds cell occupant) :
    core.occupant cell = some occupant := by
  obtain ⟨rfl, n, hc⟩ | ⟨rfl, n, hx⟩ := h
  · simp [Core.occupant, hc]
  · simp [Core.occupant, hx]

theorem names_iff {token : CellToken} :
    core.names token cell = true ↔ token.ledger = core.shared.address ∧ token.cell = cell ∧
      core.occupancy cell = some token.occupancy := by
  simp [names, and_assoc]

/-- The store knows of a conflict exactly where it remembers it or is told of its
explanation. -/
theorem known_eq_none :
    core.known key explained = none ↔ ¬ core.Remembers key ∧ explained = none := by
  unfold known Remembers
  cases hlookup : core.refusals.lookup key with
  | some cause => simp
  | none =>
    cases hx : core.x with
    | none => simp
    | some entry =>
      obtain ⟨n, occupant, stage⟩ := entry
      cases occupant with
      | explanation original cause =>
        by_cases horiginal : original = key
        · cases stage <;> simp [horiginal]
        · simp [horiginal]
      | gating | acknowledgement | correction => simp

theorem remembers_of_known {known : Known} (h : core.known key explained = some known) :
    core.Remembers key ∨ ∃ seq, explained = some seq := by
  by_contra hnot
  rw [not_or] at hnot
  have hnone : explained = none := by
    cases explained with
    | none => rfl
    | some seq => exact absurd ⟨seq, rfl⟩ hnot.2
  simp [known_eq_none.mpr ⟨hnot.1, hnone⟩] at h

/-! A cell is filled where it has a number left; otherwise the store is latched. -/

theorem place_full (h : ¬ core.Room cell) (occupant : Occupant) :
    core.place cell occupant = (false, core.setLatch .overflow) := by
  rw [Room] at h
  simp only [place, nextOccupancy, if_neg h]

theorem place_u (h : core.Room .u) (occupant : Occupant) :
    core.place .u occupant =
      (true, { core.spend .u with u := some (core.occupancies .u + 1, occupant) }) := by
  rw [Room] at h
  simp only [place, nextOccupancy, if_pos h, spend]

theorem place_c (h : core.Room .c) (occupant : Occupant) :
    core.place .c occupant = (true, core.putC occupant) := by
  rw [Room] at h
  simp only [place, nextOccupancy, if_pos h, putC, spend]

theorem place_x (h : core.Room .x) (original : RecordKey) (cause : Cause) :
    core.place .x (.explanation original cause) = (true, core.putX original cause) := by
  rw [Room] at h
  simp only [place, nextOccupancy, if_pos h, putX, spend]

end Core

/-! ## What the storage reported -/

variable (books : Books L) (core : Core) (ledger : L)

/-- The facts of a member, as the storage reported them. -/
def Reported (ledger : L) (member : Member) (facts : MemberFacts) : Prop :=
  ∃ index, books.truth ledger (.facts index member) (.got facts)

/-- The member was classified `Insert`. -/
def Admitted (member : Member) (gating : Bool) : Prop :=
  core.Live ∧ ∃ facts, Reported books ledger member facts ∧ facts.row = none ∧
    core.known member.key facts.explained = none ∧ (gating = true → facts.corrected = none)

/-- The member was classified `Present`. -/
def Found (ledger : L) (member : Member) (gating : Bool) : Prop :=
  ∃ facts row, Reported books ledger member facts ∧ facts.row = some row ∧
    row.digest = member.key.digest ∧ (gating = true → facts.corrected = none)

/-- The key was reported not to be in the ledger with its content. -/
def Missing (ledger : L) (key : RecordKey) : Prop :=
  (∃ member facts, member.key = key ∧ Reported books ledger member facts ∧
      ∀ row, facts.row = some row → row.digest ≠ key.digest) ∨
    ∃ row, books.truth ledger (.row key.id) (.got (some row)) ∧ row.digest ≠ key.digest

/-- An explanation of the key was reported. -/
def Explained (ledger : L) (key : RecordKey) : Prop :=
  (∃ seq, books.truth ledger (.explained key) (.got (some seq))) ∨
    ∃ member facts seq, member.key = key ∧ Reported books ledger member facts ∧
      facts.explained = some seq

/-- The set of an acknowledgement passed its tests. -/
def Passed (ledger : L) (set : SetFacts) : Prop :=
  ∃ now, books.truth ledger (.recheck set.frontier set.top) (.got now) ∧
    Publish.ackRefusal set now = none

/-- What was tested before an occupant that U keeps was inserted. -/
def Holdable : Occupant → Prop
  | .gating record exit => exit ≠ .inCall ∧ Admitted books core ledger record.member true
  | .acknowledgement set _ => Passed books ledger set
  | .correction _ _ _ | .explanation _ _ => False

/-- U's occupant was reported not to be in the ledger. -/
def Absent (ledger : L) : Occupant → Prop
  | .gating record _ => books.truth ledger (.row record.member.key.id) (.got none)
  | .acknowledgement set nonce => books.truth ledger (.acknowledgement set nonce) (.got none)
  | .correction _ _ _ | .explanation _ _ => False

/-- What was tested before a row was issued that may now be in the ledger. -/
def Doubtful (row : LedgerRow) : Prop :=
  (∃ member, row = .fact member ∧ Admitted books core ledger member false) ∨
    ∃ cell occupant, row = occupant.row ∧ core.Holds cell occupant ∧
      books.truth ledger (.present occupant) (.got none)

/-- The rows of the members of a batch that were to be inserted. -/
def pendingRows (members : List (Member × Bool)) : List LedgerRow :=
  (members.filter Prod.snd).map fun (member, _) => .fact member

/-- The members of a batch after `earlier` were all classified `Present` or `Insert`; the list
of flags says which are to be inserted. -/
inductive Classified (books : Books L) (core : Core) (l : L) :
    List Member → List Member → List Bool → Prop where
  | nil {earlier : List Member} : Classified books core l earlier [] []
  | present {earlier rest : List Member} {member : Member} {pending : List Bool}
      {facts : MemberFacts} {row : Row} (hfacts : Reported books l member facts)
      (hrow : facts.row = some row) (hdigest : row.digest = member.key.digest)
      (hrest : Classified books core l (earlier ++ [member]) rest pending) :
      Classified books core l earlier (member :: rest) (false :: pending)
  | insert {earlier rest : List Member} {member : Member} {pending : List Bool}
      {facts : MemberFacts} (hfacts : Reported books l member facts)
      (hsession : core.session ≠ .sealed)
      (hknown : core.known member.key facts.explained = none)
      (hconstraint : constraint member facts earlier = none)
      (hrest : Classified books core l (earlier ++ [member]) rest pending) :
      Classified books core l earlier (member :: rest) (true :: pending)

/-- Rows that were classified, or need no classification, and are to be inserted in order. -/
inductive Insertable (books : Books L) (core : Core) (l : L) : List LedgerRow → Prop where
  | batch {batch : List FactRecord} {pending : List Bool} (hbatch : wellFormed batch = true)
      (h : Classified books core l [] (batch.map FactRecord.member) pending) :
      Insertable books core l (pendingRows ((batch.map FactRecord.member).zip pending))
  | gating {member : Member} {facts : MemberFacts} (hfacts : Reported books l member facts)
      (hconstraint : constraint member facts [] = none) :
      Insertable books core l [.gating member]
  | acknowledgement {set : SetFacts} {nonce : Bytes 16} :
      Insertable books core l [.acknowledgement set nonce]
  | cell {cell : Cell} {occupant : Occupant} (h : core.Holds cell occupant) :
      Insertable books core l [occupant.row]

/-- An insert was answered by a broken constraint, since when some rows may have been added. -/
def Violation (l : L) : Prop :=
  ∃ (before : Core) (ledger : L) (more done rest : List LedgerRow) (row : LedgerRow),
    before.c = core.c ∧ before.x = core.x ∧ l = books.append ledger more ∧
      Insertable books before ledger (done ++ row :: rest) ∧ books.breaks ledger done row

/-- What is known where the store is latched. -/
def Latches (l : L) : LatchCause → Prop
  | .cellInvariant => ¬ core.CellsOk
  | .constraint => Violation books core l
  | _ => True

variable {books} {core} {ledger}

/-! ## Moves -/

/-- One thing a store operation does. -/
inductive Move where
  /-- The session opens. -/
  | opened
  /-- The session is sealed. -/
  | sealed
  /-- The phase becomes barrier needed. -/
  | degraded
  | latched (cause : LatchCause)
  /-- A number of U is spent on an occupant that does not outlive its call. -/
  | spent
  /-- Inserts are issued for some of these rows. -/
  | issued (rows : List LedgerRow)
  /-- U keeps its occupant, whose row may be in the ledger. -/
  | held (occupant : Occupant)
  /-- A gating record that is in the ledger is answered Committed. -/
  | told (record : GatingRecord)
  /-- A gating record is committed and answered so. -/
  | committed (record : GatingRecord)
  /-- A batch is answered Committed; the members marked are committed with it. -/
  | paid (members : List (Member × Bool))
  /-- Some of these rows, in order, may be in the ledger. -/
  | doubted (rows : List LedgerRow)
  /-- A conflict enters the table. -/
  | learned (key : RecordKey) (cause : Cause)
  /-- A conflict's explanation is placed in X. -/
  | explained (key : RecordKey) (cause : Cause)
  /-- A key is answered Conflict. -/
  | conflicted (key : RecordKey)
  /-- An explained conflict leaves the table. -/
  | forgot (key : RecordKey)
  | taken (snapshot : Snapshot)
  /-- An acknowledgement is committed. -/
  | acked (set : SetFacts) (nonce : Bytes 16)
  /-- A barrier passes. -/
  | passed
  /-- U's occupant is not in the ledger, and U is emptied. -/
  | released (occupant : Occupant)
  /-- U's gating record is in the ledger, and its correction placed in C. -/
  | corrected (record : GatingRecord) (seq : Seq) (exit : Exit)
  /-- The identity of U's gating record is in the ledger with other content. -/
  | contradicted (record : GatingRecord) (row : Row)
  /-- U's acknowledgement is in the ledger. -/
  | acknowledged (set : SetFacts) (nonce : Bytes 16)
  /-- The occupant of C or X is in the ledger. -/
  | settled (cell : Cell) (occupant : Occupant) (seq : Seq)
  /-- X is emptied. -/
  | emptied

open Publish (quiescent releaseU raiseFrontier settle)

/-- What each move needs and changes. -/
inductive Move.Step (books : Books L) : Core × L → Move → Core × L → Prop where
  | opened {core : Core} {l : L} (h : core.session = .bootstrap) :
      Step books (core, l) .opened ({ core with session := .open }, l)
  | sealed {core : Core} {l : L} (h : quiescent core = true) :
      Step books (core, l) .sealed ({ core with session := .sealed }, l)
  | degraded {core : Core} {l : L} : Step books (core, l) .degraded (core.degrade, l)
  | latched {core : Core} {l : L} {cause : LatchCause}
      (h : Latches books core l cause) :
      Step books (core, l) (.latched cause) (core.setLatch cause, l)
  | spent {core : Core} {l : L} (hready : core.Ready) (hroom : core.Room .u) :
      Step books (core, l) .spent (core.spend .u, l)
  | issued {core : Core} {l : L} {rows : List LedgerRow} (hlive : core.Live)
      (hfact : ∀ m, .fact m ∈ rows → Admitted books core l m false)
      (hgating : ∀ m, .gating m ∈ rows → Admitted books core l m true) :
      Step books (core, l) (.issued rows) (core, l)
  | held {core : Core} {l l' : L} {occupant : Occupant} (hready : core.Ready)
      (hroom : core.Room .u) (htest : Holdable books core l occupant)
      (hrow : Insertable books core l [occupant.row])
      (hledger : l' = l ∨ l' = books.append l [occupant.row]) :
      Step books (core, l) (.held occupant) (core.holdU occupant, l')
  | told {core : Core} {l : L} {record : GatingRecord} (hready : core.Ready)
      (htest : Found books l record.member true) :
      Step books (core, l) (.told record) (core, l)
  | committed {core : Core} {l : L} {record : GatingRecord} (hready : core.Ready)
      (htest : Admitted books core l record.member true)
      (hrow : Insertable books core l [.gating record.member]) :
      Step books (core, l) (.committed record) (core, books.append l [.gating record.member])
  | paid {core : Core} {l : L} {members : List (Member × Bool)}
      (hlatch : core.latch = none)
      (hpresent : ∀ m, (m, false) ∈ members → Found books l m false)
      (hinsert : ∀ m, (m, true) ∈ members → Admitted books core l m false)
      (hrow : Insertable books core l (pendingRows members)) :
      Step books (core, l) (.paid members) (core, books.append l (pendingRows members))
  | doubted {core : Core} {l l' : L} {rows : List LedgerRow} (hlive : core.Live)
      (htest : ∀ row ∈ rows, Doubtful books core l row) (hrow : Insertable books core l rows)
      (hledger : l' = l ∨ ∃ k, l' = books.append l (rows.take k)) :
      Step books (core, l) (.doubted rows) (core, l')
  | learned {core : Core} {l : L} {key : RecordKey} {cause : Cause} (hlive : core.Live)
      (hroom : core.tableFull = false) (hnew : core.refusals.lookup key = none) :
      Step books (core, l) (.learned key cause) (core.remember key cause, l)
  | explained {core : Core} {l : L} {key : RecordKey} {cause : Cause} (hlive : core.Live)
      (hphase : core.phase = .healthy) (hx : core.x = none) (hroom : core.Room .x) :
      Step books (core, l) (.explained key cause) (core.putX key cause, l)
  | conflicted {core : Core} {l : L} {key : RecordKey} (hmissing : Missing books l key)
      (hknown : core.Remembers key ∨ Explained books l key ∨ core.latch.isSome) :
      Step books (core, l) (.conflicted key) (core, l)
  | forgot {core : Core} {l : L} {key : RecordKey} (h : Explained books l key) :
      Step books (core, l) (.forgot key) ({ core with refusals := core.refusals.erase key }, l)
  | taken {core : Core} {l : L} {snapshot : Snapshot}
      (hledger : snapshot.ledger = core.shared.address)
      (htest : books.truth l .survey (.got snapshot.set))
      (hset : snapshot.set.frontier < snapshot.set.top) :
      Step books (core, l) (.taken snapshot) (core, l)
  | acked {core : Core} {l : L} {set : SetFacts} {nonce : Bytes 16} (hready : core.Ready)
      (htest : Passed books l set) :
      Step books (core, l) (.acked set nonce)
        (raiseFrontier set.top core, books.append l [.acknowledgement set nonce])
  | passed {core : Core} {l : L} (h : core.phase = .needBarrier) :
      Step books (core, l) .passed
        ({ core with phase := if core.u.isSome then .resolving else .healthy }, l)
  | released {core : Core} {l : L} {occupant : Occupant} (h : core.Resolving occupant)
      (htest : Absent books l occupant) :
      Step books (core, l) (.released occupant) (releaseU core, l)
  | corrected {core : Core} {l : L} {record : GatingRecord} {row : Row} {exit : Exit}
      (h : core.Resolving (.gating record exit)) (hroom : core.Room .c)
      (htest : books.truth l (.row record.member.key.id) (.got (some row)))
      (hdigest : row.digest = record.member.key.digest) :
      Step books (core, l) (.corrected record row.seq exit)
        (releaseU (core.putC (.correction record.member.key row.seq exit)), l)
  | contradicted {core : Core} {l : L} {record : GatingRecord} {row : Row} {exit : Exit}
      (h : core.Resolving (.gating record exit)) (hroom : core.Room .x)
      (htest : books.truth l (.row record.member.key.id) (.got (some row)))
      (hdigest : row.digest ≠ record.member.key.digest) :
      Step books (core, l) (.contradicted record row)
        (releaseU (core.putX record.member.key
          ⟨.identityContent record.member.key.id row record.member.key.digest⟩), l)
  | acknowledged {core : Core} {l : L} {set : SetFacts} {nonce : Bytes 16} {seq durable : Seq}
      (h : core.Resolving (.acknowledgement set nonce))
      (htest : books.truth l (.acknowledgement set nonce) (.got (some seq)))
      (hfrontier : books.truth l .frontier (.got durable)) (htop : set.top ≤ durable) :
      Step books (core, l) (.acknowledged set nonce) (releaseU (raiseFrontier set.top core), l)
  | settled {core : Core} {l l' : L} {cell : Cell} {occupant : Occupant} {seq : Seq}
      (hlive : core.Live) (hholds : core.Holds cell occupant)
      (htest : books.truth l (.present occupant) (.got (some seq)) ∧ l' = l ∨
        books.truth l (.present occupant) (.got none) ∧ l' = books.append l [occupant.row]) :
      Step books (core, l) (.settled cell occupant seq) (settle cell seq core, l')
  | emptied {core : Core} {l : L} {n : Nat} {occupant : Occupant} {seq : Seq}
      (h : core.x = some (n, occupant, .committed seq)) :
      Step books (core, l) .emptied ({ core with x := none }, l)

/-! ## Fields the moves leave alone -/

theorem setLatch_eq (core : Core) (cause : LatchCause) :
    core.setLatch cause = { core with latch := core.latch.or (some cause) } := by
  unfold Core.setLatch
  cases hlatch : core.latch with
  | none => rfl
  | some first =>
    simp only [Option.isNone_some, Bool.false_eq_true, if_false, Option.some_or]
    rw [← hlatch]

theorem raiseFrontier_eq (top : Seq) (core : Core) :
    raiseFrontier top core = { core with frontier := max core.frontier top } := by
  unfold Publish.raiseFrontier
  split
  · rename_i hlt
    rw [Nat.max_eq_right (Nat.le_of_lt hlt)]
  · rename_i hle
    rw [Nat.max_eq_left (Nat.not_lt.mp hle)]

/-- Settling X marks it committed and drops its original from the table. -/
theorem settle_x {n : Nat} {occupant : Occupant} {stage : Stage}
    (h : core.x = some (n, occupant, stage)) (seq : Seq) :
    ∃ refusals, settle .x seq core =
        { core with x := some (n, occupant, .committed seq), refusals := refusals } ∧
      (refusals = core.refusals ∨ ∃ original cause, occupant = .explanation original cause ∧
        refusals = core.refusals.erase original) := by
  simp only [Publish.settle, h]
  cases occupant with
  | explanation original cause => exact ⟨_, rfl, .inr ⟨original, cause, rfl, rfl⟩⟩
  | gating | acknowledgement | correction => exact ⟨_, rfl, .inl rfl⟩

section Frames

variable {books : Books L} {state next : Core × L} {move : Move}

/-- Settling C or X leaves what neither holds. -/
theorem settle_frame {occupant : Occupant} (h : core.Holds cell occupant) (seq : Seq) :
    (settle cell seq core).shared = core.shared ∧ (settle cell seq core).session = core.session ∧
      (settle cell seq core).latch = core.latch ∧ (settle cell seq core).u = core.u ∧
      (settle cell seq core).occupancies = core.occupancies ∧
      (settle cell seq core).frontier = core.frontier := by
  obtain ⟨rfl, n, -⟩ | ⟨rfl, n, hx⟩ := h
  · exact ⟨rfl, rfl, rfl, rfl, rfl, rfl⟩
  · obtain ⟨_, hsettle, -⟩ := settle_x hx seq
    rw [hsettle]
    exact ⟨rfl, rfl, rfl, rfl, rfl, rfl⟩

/-- No move changes which ledger this is. -/
theorem Move.Step.shared (h : Move.Step books state move next) :
    next.1.shared = state.1.shared := by
  cases h with
  | latched | acked | acknowledged => simp only [setLatch_eq, raiseFrontier_eq, releaseU]
  | settled _ hholds => exact (settle_frame hholds _).1
  | _ => rfl

/-- Only a latching move sets the latch, and only where none is set. -/
theorem Move.Step.latch (h : Move.Step books state move next) :
    next.1.latch = state.1.latch ∨ ∃ cause, state.1.latch = none ∧ next.1.latch = some cause ∧
      Latches books state.1 state.2 cause := by
  cases h with
  | @latched core _ cause h =>
    rw [setLatch_eq]
    cases hlatch : core.latch with
    | some first => exact .inl rfl
    | none => exact .inr ⟨cause, rfl, rfl, h⟩
  | acked | acknowledged => exact .inl (by simp only [raiseFrontier_eq, releaseU])
  | settled _ hholds => exact .inl (settle_frame hholds _).2.2.1
  | _ => exact .inl rfl

/-- Whether a move resolves U's occupant. -/
def Move.resolves : Move → Bool
  | .released _ | .corrected _ _ _ | .contradicted _ _ | .acknowledged _ _ => true
  | _ => false

variable (h : Move.Step books state move next)

include h

/-- U is filled only by a record that is held, in a store that is ready, and emptied only by
resolving it. -/
theorem Move.Step.u :
    next.1.u = state.1.u ∨ (next.1.u = none ∧ move.resolves = true) ∨
      ∃ occupant, move = .held occupant ∧ state.1.Ready ∧ state.1.Room .u ∧
        next.1.u = some (state.1.occupancies .u + 1, occupant) := by
  cases h with
  | held hready hroom => exact .inr (.inr ⟨_, rfl, hready, hroom, rfl⟩)
  | released | corrected | contradicted | acknowledged => exact .inr (.inl ⟨rfl, rfl⟩)
  | latched | acked => exact .inl (by simp only [setLatch_eq, raiseFrontier_eq])
  | settled _ hholds => exact .inl (settle_frame hholds _).2.2.2.1
  | _ => exact .inl rfl

/-- C is filled only by the correction of U's record, and emptied only by settling it. -/
theorem Move.Step.c :
    next.1.c = state.1.c ∨
      (∃ occupant seq, move = .settled .c occupant seq ∧ state.1.Holds .c occupant ∧
        next.1.c = none) ∨
      ∃ record seq exit, state.1.Resolving (.gating record exit) ∧ state.1.Room .c ∧
        next.1.c = some (state.1.occupancies .c + 1, .correction record.member.key seq exit) := by
  cases h with
  | corrected hresolving hroom => exact .inr (.inr ⟨_, _, _, hresolving, hroom, rfl⟩)
  | latched | acked | acknowledged =>
    exact .inl (by simp only [setLatch_eq, raiseFrontier_eq, releaseU])
  | settled _ hholds =>
    obtain ⟨rfl, n, hc⟩ | ⟨rfl, n, hx⟩ := id hholds
    · exact .inr (.inl ⟨_, _, rfl, hholds, rfl⟩)
    · obtain ⟨_, hsettle, -⟩ := settle_x hx _
      exact .inl (by rw [hsettle])
  | _ => exact .inl rfl

/-- X is filled only by an explanation, in a live store where it is empty, and is otherwise
kept, marked committed by settling it, or emptied. -/
theorem Move.Step.x :
    next.1.x = state.1.x ∨
      (next.1.x = none ∧ ∃ n occupant seq, state.1.x = some (n, occupant, .committed seq)) ∨
      (∃ n occupant seq, move = .settled .x occupant seq ∧
        state.1.x = some (n, occupant, .built) ∧ next.1.x = some (n, occupant, .committed seq)) ∨
      ∃ key cause, state.1.Live ∧ state.1.x = none ∧ state.1.Room .x ∧
        next.1.x = some (state.1.occupancies .x + 1, .explanation key cause, .built) := by
  cases h with
  | explained hlive _ hx hroom => exact .inr (.inr (.inr ⟨_, _, hlive, hx, hroom, rfl⟩))
  | contradicted hresolving hroom =>
    exact .inr (.inr (.inr ⟨_, _, hresolving.1, hresolving.2.2.2.1, hroom, rfl⟩))
  | emptied hx => exact .inr (.inl ⟨rfl, _, _, _, hx⟩)
  | latched | acked | acknowledged =>
    exact .inl (by simp only [setLatch_eq, raiseFrontier_eq, releaseU])
  | settled _ hholds =>
    obtain ⟨rfl, n, hc⟩ | ⟨rfl, n, hx⟩ := hholds
    · exact .inl rfl
    · obtain ⟨_, hsettle, -⟩ := settle_x hx _
      exact .inr (.inr (.inl ⟨n, _, _, rfl, hx, by rw [hsettle]⟩))
  | _ => exact .inl rfl

/-- No move removes a row. -/
theorem Move.Step.size_le : books.size state.2 ≤ books.size next.2 := by
  have happend : ∀ l rows, books.size l ≤ books.size (books.append l rows) := by
    intro l rows
    rw [books.size_append]
    exact Nat.le_add_right _ _
  cases h with
  | held _ _ _ _ hledger =>
    rcases hledger with rfl | rfl
    · exact Nat.le_refl _
    · exact happend _ _
  | doubted _ _ _ hledger =>
    rcases hledger with rfl | ⟨k, rfl⟩
    · exact Nat.le_refl _
    · exact happend _ _
  | settled _ _ htest =>
    rcases htest with ⟨-, rfl⟩ | ⟨-, rfl⟩
    · exact Nat.le_refl _
    · exact happend _ _
  | committed | paid | acked => exact happend _ _
  | _ => exact Nat.le_refl _

end Frames

/-- Moves that add no row commit nothing. -/
theorem not_committed_of_size_le {books : Books L} {state next : Core × L} {moves : List Move}
    (h : Transition.Run (Move.Step books) state moves next)
    (hsize : books.size next.2 ≤ books.size state.2) (record : GatingRecord) :
    .committed record ∉ moves := by
  have hgrow : ∀ {s t : Core × L} {moves}, Transition.Run (Move.Step books) s moves t →
      books.size s.2 ≤ books.size t.2 :=
    fun hrun => hrun.relates (fun s t => books.size s.2 ≤ books.size t.2)
      (fun _ => Nat.le_refl _) Nat.le_trans Move.Step.size_le
  intro hmem
  obtain ⟨before, after, source, target, rfl, hbefore, hstep, hafter⟩ := h.of_mem hmem
  have hfirst := hgrow hbefore
  have hlast := hgrow hafter
  cases hstep with
  | committed =>
    rw [books.size_append] at hlast
    simp only [List.length_cons] at hfirst hlast
    omega

end NexusOs.Ledger
