import NexusOs.Ledger.Word

/-!
# The core's state and its private functions

`Core` is the store's state as `ledger/protocol.rs` keeps it, less the word, which is shared
with the tickets and lives in the system that holds them. The functions are the private ones
the store operations are built from: the cells and their occupancy numbers, what the store
knows of a conflict, the check of a batch, and the classification of one member.
-/

namespace NexusOs.Ledger

/-- A ledger's shared allocation: its address and its ticket limit. -/
structure Shared where
  address : LedgerId
  tickets : Nat
  deriving DecidableEq

/-- The store's state. -/
structure Core where
  shared : Shared
  phase : Phase
  session : Session
  latch : Option LatchCause
  u : Option (Nat × Occupant)
  c : Option (Nat × Occupant)
  x : Option (Nat × Occupant × Stage)
  occupancies : Cell → Nat
  refusals : AList fun _ : RecordKey => Cause
  refusalLimit : Nat
  frontier : Seq
  workerTaken : Bool

/-- Classification of one member. -/
inductive Verdict where
  | present (seq : Seq)
  | insert
  | refused (reason : Reason) (conflict : Option Nat)
  deriving DecidableEq

/-- A member's position in its batch, as a `u16`. -/
def memberIndex (index : Nat) : Nat := if index < 2 ^ 16 then index else 2 ^ 16 - 1

/-- The test `well_formed` makes of one pair of members of a batch. -/
def pairWellFormed (index : Nat) (member : Member) (otherIndex : Nat) (other : Member) : Bool :=
  if otherIndex = index then true
  else if other.key.id = member.key.id then false
  else
    match member.part, other.part with
    | some part, some otherPart =>
      if part = otherPart then false
      else if part.commitment = otherPart.commitment ∧ part.role ≠ .prepared ∧
          otherPart.role = .prepared ∧ index < otherIndex then false
      else true
    | _, _ => true

/-- 1 to 256 members; no identity twice; no commitment and role twice; and no member needing
a Prepared record before the Prepared member of its own commitment. -/
def wellFormed (batch : List FactRecord) : Bool :=
  if batch = [] ∨ BATCH_MAX < batch.length then false
  else
    batch.zipIdx.all fun (record, index) =>
      batch.zipIdx.all fun (other, otherIndex) =>
        pairWellFormed index record.member otherIndex other.member

/-- The Prepared part of a commitment. -/
def Part.preparedOf (part : Part) : Part := ⟨part.commitment, .prepared⟩

/-- A constraint the member would break, in order: its identity with different content; its
role already held; a role that needs a Prepared record which neither the ledger nor an
earlier member has. -/
def constraint (member : Member) (facts : MemberFacts) (earlier : List Member) : Option CauseKind :=
  match facts.row with
  | some existing => some (.identityContent member.key.id existing member.key.digest)
  | none =>
    match member.part with
    | none => none
    | some part =>
      match facts.holder with
      | some holder => some (.duplicateRole part holder member.key)
      | none =>
        if part.role ≠ .prepared ∧ facts.prepared = false ∧
            earlier.any (fun m => m.part == some part.preparedOf) = false then
          some (.missingPrepared part member.key)
        else none

namespace Core

/-- `Core::new`. The address is that of the allocation it makes. -/
def new (limits : Limits) (address : LedgerId) : Core where
  shared := ⟨address, max 1 (min limits.tickets TICKET_LIMIT_MAX)⟩
  phase := .healthy
  session := .bootstrap
  latch := none
  u := none
  c := none
  x := none
  occupancies := fun _ => 0
  refusals := ∅
  refusalLimit := max limits.refusals 1
  frontier := 0
  workerTaken := false

variable (core : Core)

/-- The phase, session, latch and cell bits of the word, from the core. -/
def flags : Word :=
  let phase := match core.phase with
    | .healthy => 0
    | .needBarrier => PHASE_NEED_BARRIER
    | .resolving => PHASE_RESOLVING
  let session := match core.session with
    | .bootstrap => 0
    | .open => SESSION_OPEN
    | .sealed => SESSION_SEALED
  let bit := fun (set : Bool) (bit : Word) => if set then bit else 0
  phase ||| session ||| bit core.latch.isSome LATCHED ||| bit core.u.isSome U_OCCUPIED |||
    bit core.c.isSome C_OCCUPIED ||| bit core.x.isSome X_OCCUPIED

/-- Latches the store. A latch is never cleared; its first cause stays. -/
def setLatch (cause : LatchCause) : Core :=
  if core.latch.isNone then { core with latch := some cause } else core

/-- The phase becomes barrier needed. -/
def degrade : Core := { core with phase := .needBarrier }

def token (cell : Cell) (occupancy : Nat) : CellToken := ⟨core.shared.address, cell, occupancy⟩

def occupancy : Cell → Option Nat
  | .u => core.u.map fun (n, _) => n
  | .c => core.c.map fun (n, _) => n
  | .x => core.x.map fun (n, _, _) => n

/-- Whether `token` names this ledger's `cell` at its present occupancy. -/
def names (token : CellToken) (cell : Cell) : Bool :=
  decide (token.ledger = core.shared.address) && decide (token.cell = cell) &&
    decide (core.occupancy cell = some token.occupancy)

/-- A new occupancy number for `cell`. A number that would overflow a `u64` latches the store
and gives none. -/
def nextOccupancy (cell : Cell) : Option Nat × Core :=
  if core.occupancies cell + 1 < 2 ^ 64 then
    (some (core.occupancies cell + 1),
      { core with occupancies := Function.update core.occupancies cell
                    (core.occupancies cell + 1) })
  else (none, core.setLatch .overflow)

/-- Places an occupant into an empty U, C or X. False if the occupancy number ran out (the
store is then latched). -/
def place (cell : Cell) (occupant : Occupant) : Bool × Core :=
  match core.nextOccupancy cell with
  | (none, core) => (false, core)
  | (some occupancy, core) =>
    match cell with
    | .u => (true, { core with u := some (occupancy, occupant) })
    | .c => (true, { core with c := some (occupancy, occupant) })
    | .x => (true, { core with x := some (occupancy, occupant, .built) })

def explanation (core : Core) (original : RecordKey) (cause : Cause) : Bool × Core :=
  core.place .x (.explanation original cause)

def tableFull : Bool := decide (core.refusalLimit ≤ core.refusals.entries.length)

/-- The table retains the cause of a conflict. -/
def remember (key : RecordKey) (cause : Cause) : Core :=
  { core with refusals := core.refusals.insert key cause }

/-- What the store already knows of `key` as a conflict: its retained cause, or X's
explanation of it, or its explanation's sequence. -/
def known (key : RecordKey) (explained : Option Seq) : Option Known :=
  match core.refusals.lookup key with
  | some cause => some (.cause cause)
  | none =>
    match core.x with
    | some (_, .explanation original cause, stage) =>
      if original = key then
        match stage with
        | .built => some (.cause cause)
        | .committed seq => some (.explained seq)
      else explained.map .explained
    | _ => explained.map .explained

/-- The last step of `classify`, for a member that breaks a constraint. -/
def refuse (index : Nat) (member : Member) (kind : CauseKind) (gating : Bool) : Verdict × Core :=
  let cause : Cause := ⟨kind⟩
  let conflict := Reason.conflict index (.cause cause)
  if gating then
    let core := if core.x.isNone then (core.explanation member.key cause).2 else core
    (.refused conflict (some index), core)
  else if core.tableFull then
    (.refused (.tableFull index) (some index), core.setLatch .tableFull)
  else
    let core := core.remember member.key cause
    let core := if core.x.isNone then (core.explanation member.key cause).2 else core
    (.refused conflict (some index), core)

/-- Classifies one member. A gating record is first tested for a correction; its conflict is
explained in X and makes no table entry. -/
def classify (index : Nat) (member : Member) (facts : MemberFacts)
    (earlier : List Member) (gating : Bool) : Verdict × Core :=
  match (if gating then facts.corrected else none) with
  | some seq => (.refused (.corrected seq) none, core)
  | none =>
    match facts.row.filter fun row => row.digest = member.key.digest with
    | some row => (.present row.seq, core)
    | none =>
      match core.known member.key facts.explained with
      | some known => (.refused (.conflict index known) (some index), core)
      | none =>
        if core.session = .sealed then (.refused (.sessionClosed index) none, core)
        else
          match constraint member facts earlier with
          | none => (.insert, core)
          | some kind => core.refuse index member kind gating

end Core

/-- What the core says of itself: `Core::agenda`. -/
structure Agenda where
  phase : Phase
  session : Session
  latch : Option LatchCause
  u : Option CellToken
  c : Option CellToken
  x : Option (CellToken × Stage)
  frontier : Seq

/-- One read of the core's own state. It does not read the word. -/
def Core.agenda (core : Core) : Agenda where
  phase := core.phase
  session := core.session
  latch := core.latch
  u := core.u.map fun (n, _) => core.token .u n
  c := core.c.map fun (n, _) => core.token .c n
  x := core.x.map fun (n, _, stage) => (core.token .x n, stage)
  frontier := core.frontier

end NexusOs.Ledger
