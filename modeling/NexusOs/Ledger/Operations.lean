import NexusOs.Lib.Resumption
import NexusOs.Ledger.Core

/-!
# The store operations

The methods of `Publish`, the guard every store operation creates first, and the public
operations of `Core` over them. A storage verb is a call of the outside world: it answers, or
it unwinds and the operation ends where it stands. `Publish.drop` is what the guard then does,
on return and on unwind alike.
-/

namespace NexusOs.Ledger

open Resumption (Prog)

/-- The storage verbs, of all five traits. `open`, `commit` and `rollback` are the verbs of
that name of `Txn`, `AckTxn` and `CellTxn`. -/
inductive Verb where
  | open
  | commit
  | rollback
  | facts (index : Nat) (member : Member)
  | insert (index : Nat) (member : Member)
  | row (id : Bytes 32)
  | explained (key : RecordKey)
  | acknowledgement (set : SetFacts) (nonce : Bytes 16)
  | frontier
  | survey
  | recheck (above upto : Seq)
  | insertAck (snapshot : Snapshot)
  | present (occupant : Occupant)
  | insertCell (occupant : Occupant)
  | run
  deriving DecidableEq

/-- What a verb answers. -/
abbrev Verb.Answer : Verb → Type
  | .open => Read Unit
  | .commit => Commit
  | .rollback => Rollback
  | .facts _ _ => Read MemberFacts
  | .insert _ _ | .insertAck _ | .insertCell _ => Insert
  | .row _ => Read (Option Row)
  | .explained _ | .acknowledgement _ _ | .present _ => Read (Option Seq)
  | .frontier => Read Seq
  | .survey | .recheck _ _ => Read SetFacts
  | .run => Bool

/-- One call of a verb with its answer, or `none` if it unwound. -/
abbrev Event := Resumption.Event Verb Verb.Answer

/-- The calls an operation made, in order. -/
abbrev Trace := List Event

/-- What the guard does with U when the operation ends. -/
inductive Hold where
  | nothing
  | gating
  | acknowledgement
  deriving DecidableEq

/-- The guard of a store operation. -/
structure Publish where
  core : Core
  /-- The flags the core last published. -/
  guess : Word
  /-- The lent ticket, once it passed its check. -/
  ticket : Option Ticket
  /-- How the lent ticket is counted, once decided. -/
  count : Option Counted
  /-- An insert has been issued. -/
  issued : Bool
  /-- The member already found to conflict. -/
  conflict : Option Nat
  /-- What the operation placed in U for the length of the call. -/
  hold : Hold
  /-- The operation's result keeps U's occupant. -/
  keep : Bool
  /-- The operation returned. -/
  done : Bool

/-- The monad the operations are written in. -/
abbrev Op := Resumption.Op Verb Verb.Answer Publish

/-- Call a storage verb. -/
def io (verb : Verb) : Op verb.Answer := Resumption.Op.call verb

namespace Publish

variable (core : Core)

def new : Publish where
  core := core
  guess := core.flags
  ticket := none
  count := none
  issued := false
  conflict := none
  hold := .nothing
  keep := false
  done := false

@[simp] theorem new_core (core : Core) : (new core).core = core := rfl

/-- The part of the guard's drop that only an unwound operation runs: a state at least as
closed as the truth. -/
def unwind (op : Publish) : Publish :=
  let persistence : Persistence :=
    if op.issued ∧ op.conflict = none then .uncertain else .notWritten
  { op with
    core := op.core.degrade
    count := if op.ticket.isSome ∧ op.count = none then some ⟨persistence, op.conflict⟩
      else op.count
    keep := op.issued }

/-- The part of the guard's drop that decides U's fate. -/
def release (op : Publish) : Publish :=
  if op.hold = .nothing then op
  else if op.keep = false then { op with core := { op.core with u := none } }
  else
    match op.core.u with
    | some (n, .gating record _) =>
      let exit : Exit := if op.done then .returnedUncertain else .unwound
      { op with core := { op.core with u := some (n, .gating record exit) } }
    | _ => op

/-- The guard's drop, up to its exchange on the word: the core it leaves and how it counts the
lent ticket. -/
def drop (op : Publish) : Publish := (if op.done then op else op.unwind).release

/-- How the drop counts the lent ticket, if it does. -/
def counted (op : Publish) : Option Counted := op.ticket.bind fun _ => op.count

/-- The closure of the one exchange by which the operation publishes. -/
def publication (op : Publish) : Word → Word := publishStep op.core.flags op.counted.isSome

/-- The lent ticket as the drop leaves it. -/
def ticketAfter (op : Publish) (ticket : Ticket) : Ticket :=
  match op.counted with
  | some counted => { ticket with state := .counted counted }
  | none => ticket

/-- A change of the core. -/
def update (f : Core → Core) : Op Unit := modify fun op => { op with core := f op.core }

/-- A failing verb: the phase becomes barrier needed. -/
def failed : Op Unit := update Core.degrade

def latch (cause : LatchCause) : Op Unit := update fun core => core.setLatch cause

/-- A failed or corrupt read: the phase becomes barrier needed, and a corrupt read latches. -/
def readFailed (corrupt : Bool) : Op Unit := do
  failed
  if corrupt then latch .corrupt else pure ()

/-- The one rollback's answer. It can make the phase worse; it never makes the persistence
better. -/
def rolled (answer : Rollback) : Op Persistence :=
  match answer with
  | .undone => pure .notWritten
  | .unknown => do
    failed
    pure .uncertain

/-- The one rollback of an operation, and its answer. -/
def rollback : Op Persistence := do
  let answer : Rollback ← io .rollback
  rolled answer

def notApplied (persistence : Persistence) (reason : Reason) : Op FactOutcome := do
  let op ← get
  let counted : Counted := ⟨persistence, op.conflict⟩
  modify fun op => { op with count := some counted }
  pure (.notApplied counted reason)

def place (cell : Cell) (occupant : Occupant) : Op Bool := do
  let op ← get
  let (placed, core) := op.core.place cell occupant
  update fun _ => core
  pure placed

/-! ## Facts -/

/-- The entry rule of `append_facts`. -/
def factsEntry (batch : List FactRecord) : Option Entry :=
  if core.session = .bootstrap then some .notOpen
  else if core.latch.isSome then some .latched
  else if core.phase ≠ .healthy then some .notHealthy
  else if wellFormed batch = false then some .malformed
  else none

/-- Whether the lent ticket belongs to this ledger and is Armed. -/
def ticketFault (ticket : Ticket) : Option TicketFault :=
  if ticket.shared ≠ core.shared.address then some .otherLedger
  else if ticket.state ≠ .armed then some .notArmed
  else none

/-- Step 3: every member classified before any insert. The list says which members are to be
inserted; an outcome says that a member or a verb stopped the operation. -/
def classifyMembers (earlier : List Member) : List Member → Op (FactOutcome ⊕ List Bool)
  | [] => pure (.inr [])
  | member :: rest => do
    let index := memberIndex earlier.length
    let answer : Read MemberFacts ← io (.facts index member)
    match answer with
    | .got facts =>
      let op ← get
      let (verdict, core) := op.core.classify index member facts earlier false
      update fun _ => core
      match verdict with
      | .present _ => do
        let pending ← classifyMembers (earlier ++ [member]) rest
        pure (pending.map id (false :: ·))
      | .insert => do
        let pending ← classifyMembers (earlier ++ [member]) rest
        pure (pending.map id (true :: ·))
      | .refused reason conflict => do
        modify fun op => { op with conflict := conflict }
        let _ ← rollback
        let outcome ← notApplied .notWritten reason
        pure (.inl outcome)
    | .failed => do
      readFailed false
      let _ ← rollback
      let outcome ← notApplied .notWritten .storage
      pure (.inl outcome)
    | .corrupt => do
      readFailed true
      let _ ← rollback
      let outcome ← notApplied .notWritten .storage
      pure (.inl outcome)

/-- The end of an operation whose insert failed: the rollback decides what may be written. -/
def insertFailed (reason : Reason) : Op FactOutcome := do
  failed
  let persistence ← rollback
  notApplied persistence reason

/-- Step 5: the pending members inserted, in batch order. An outcome says that an insert
stopped the operation. -/
def insertMembers (index : Nat) : List (Member × Bool) → Op (Option FactOutcome)
  | [] => pure none
  | (_, false) :: rest => insertMembers (index + 1) rest
  | (member, true) :: rest => do
    modify fun op => { op with issued := true }
    let answer : Insert ← io (.insert (memberIndex index) member)
    match answer with
    | .inserted _ => insertMembers (index + 1) rest
    | .constraint => do
      latch .constraint
      let outcome ← insertFailed .constraint
      pure (some outcome)
    | .failed => do
      let outcome ← insertFailed .storage
      pure (some outcome)

/-- Step 6. -/
def commitMembers : Op FactOutcome := do
  let answer : Commit ← io .commit
  match answer with
  | .durable => pure .committed
  | .unknown => do
    failed
    let _ ← rollback
    notApplied .uncertain .storage

/-- Steps 2 to 6 of `append_facts`. The loops run over the batch zipped with 256 slots. -/
def appendMembers (batch : List FactRecord) : Op FactOutcome := do
  let members := (batch.map FactRecord.member).take BATCH_MAX
  let opened : Read Unit ← io .open
  if opened ≠ .got () then do
    failed
    notApplied .notWritten .storage
  else do
    let classified ← classifyMembers [] members
    match classified with
    | .inl outcome => pure outcome
    | .inr pending =>
      if pending.any id = false then do
        let _ ← rollback
        pure .committed
      else do
        let stopped ← insertMembers 0 (members.zip pending)
        match stopped with
        | some outcome => pure outcome
        | none => commitMembers

def facts (ticket : Ticket) (batch : List FactRecord) : Op FactOutcome := do
  let op ← get
  match ticketFault op.core ticket with
  | some fault => do
    latch .ticketFault
    pure (.rejected fault)
  | none => do
    modify fun op => { op with ticket := some ticket }
    match factsEntry op.core batch with
    | some entry => notApplied .notWritten (.entry entry)
    | none => appendMembers batch

/-! ## Gating records -/

/-- The part of the entry rule that `append_gating` and `append_acknowledgement` share. -/
def holdEntry : Option Entry :=
  if core.session ≠ .open then some .notOpen
  else if core.latch.isSome then some .latched
  else if core.phase ≠ .healthy then some .notHealthy
  else if core.c.isSome ∨ core.x.isSome then some .cellsBusy
  else none

/-- The end of a gating append whose insert failed. -/
def gatingFailed (reason : Reason) : Op GatingOutcome := do
  failed
  let persistence ← rollback
  modify fun op => { op with keep := persistence = .uncertain }
  pure (.refused persistence reason)

/-- The insert and the commit of a gating record. -/
def insertGating (member : Member) : Op GatingOutcome := do
  modify fun op => { op with issued := true }
  let answer : Insert ← io (.insert 0 member)
  match answer with
  | .inserted seq => do
    let answer : Commit ← io .commit
    match answer with
    | .durable => pure (.committed seq)
    | .unknown => do
      failed
      let _ ← rollback
      modify fun op => { op with keep := true }
      pure (.refused .uncertain .storage)
  | .constraint => do
    latch .constraint
    gatingFailed .constraint
  | .failed => gatingFailed .storage

/-- A gating append once its record holds U. -/
def gatingHeld (member : Member) : Op GatingOutcome := do
  let opened : Read Unit ← io .open
  if opened ≠ .got () then do
    failed
    pure (.refused .notWritten .storage)
  else do
    let answer : Read MemberFacts ← io (.facts 0 member)
    match answer with
    | .got facts => do
      let op ← get
      let (verdict, core) := op.core.classify 0 member facts [] true
      update fun _ => core
      match verdict with
      | .present seq => do
        let _ ← rollback
        pure (.committed seq)
      | .refused reason _ => do
        let _ ← rollback
        pure (.refused .notWritten reason)
      | .insert => insertGating member
    | .failed => do
      readFailed false
      let _ ← rollback
      pure (.refused .notWritten .storage)
    | .corrupt => do
      readFailed true
      let _ ← rollback
      pure (.refused .notWritten .storage)

def gating (record : GatingRecord) : Op GatingOutcome := do
  let op ← get
  match holdEntry op.core with
  | some entry => pure (.refused .notWritten (.entry entry))
  | none =>
    if op.core.u.isSome then do
      latch .cellInvariant
      pure (.refused .notWritten (.entry .latched))
    else do
      let placed ← place .u (.gating record .inCall)
      if placed = false then pure (.refused .notWritten (.entry .latched))
      else do
        modify fun op => { op with hold := .gating }
        gatingHeld record.member

/-! ## Lookup and explain -/

def lookup (key : RecordKey) : Op Lookup := do
  let op ← get
  if op.core.session ≠ .open then pure (.refused .notOpen)
  else if op.core.latch.isSome then pure (.refused .latched)
  else if op.core.phase = .needBarrier then pure (.refused .notHealthy)
  else do
    let answer : Read (Option Row) ← io (.row key.id)
    match answer with
    | .got none => pure .absent
    | .got (some existing) =>
      if existing.digest = key.digest then pure (.present existing.seq)
      else
        -- a conflict observation; lookup never fills X
        match op.core.known key none with
        | some known => pure (.conflict known)
        | none => do
          let answer : Read (Option Seq) ← io (.explained key)
          match answer with
          | .got (some seq) => pure (.conflict (.explained seq))
          | .got none =>
            if op.core.tableFull then do
              latch .tableFull
              pure (.refused .latched)
            else do
              let cause : Cause := ⟨.identityContent key.id existing key.digest⟩
              update fun core => core.remember key cause
              pure (.conflict (.cause cause))
          | .failed => do
            failed
            pure .failed
          | .corrupt => do
            latch .corrupt
            pure (.refused .latched)
    | .failed => do
      failed
      pure .failed
    | .corrupt => do
      latch .corrupt
      pure (.refused .latched)

/-- The end of `explain` for a key without an explanation in the ledger. -/
def explainPending (key : RecordKey) : Op Explain := do
  let op ← get
  match op.core.x with
  | some (_, .explanation original _, _) => if original = key then pure .pending else pure .busy
  | some _ => pure .busy
  | none =>
    match op.core.refusals.lookup key with
    | some cause => do
      let placed ← place .x (.explanation key cause)
      if placed then pure .pending else pure (.refused .latched)
    | none => pure .unknown

def explain (key : RecordKey) : Op Explain := do
  let op ← get
  if op.core.session ≠ .open then pure (.refused .notOpen)
  else if op.core.latch.isSome then pure (.refused .latched)
  else if op.core.phase ≠ .healthy then pure .busy
  else do
    let answer : Read (Option Seq) ← io (.explained key)
    match answer with
    | .got (some seq) => do
      update fun core => { core with refusals := core.refusals.erase key }
      pure (.explained seq)
    | .got none => explainPending key
    | .failed => do
      readFailed false
      pure .busy
    | .corrupt => do
      readFailed true
      pure .busy

/-! ## Acknowledgements -/

def snapshot (nonce : Bytes 16) : Op SnapshotOutcome := do
  let op ← get
  if op.core.session ≠ .open then pure (.notNow .notOpen)
  else if op.core.latch.isSome then pure (.notNow .latched)
  else if op.core.phase ≠ .healthy then pure (.notNow .notHealthy)
  else do
    let answer : Read SetFacts ← io .survey
    match answer with
    | .got set =>
      if set.frontier < set.top ∧ 0 < set.count then
        pure (.taken ⟨op.core.shared.address, set, nonce⟩)
      else pure .nothing
    | .failed => do
      readFailed false
      pure .failed
    | .corrupt => do
      readFailed true
      pure .failed

/-- Tests 2 to 5 of an acknowledgement: the set it was shown against the ledger now. -/
def ackRefusal (set now : SetFacts) : Option AckRefusal :=
  if set.frontier ≠ now.frontier then some .stale
  else if set.top ≤ set.frontier ∨ set.count < 1 then some .empty
  else if set.head < set.top ∨ now.head < set.head then some .future
  else if now.count ≠ set.count ∨ now.digest ≠ set.digest then some .set
  else none

/-- The frontier rises to `top`, and never falls. -/
def raiseFrontier (top : Seq) (core : Core) : Core :=
  if core.frontier < top then { core with frontier := top } else core

/-- The end of an acknowledgement whose insert failed. -/
def ackFailed : Op AckOutcome := do
  failed
  let persistence ← rollback
  modify fun op => { op with keep := persistence = .uncertain }
  pure (.notApplied persistence)

/-- The commit of an acknowledgement. -/
def commitAck (set : SetFacts) : Op AckOutcome := do
  let answer : Commit ← io .commit
  match answer with
  | .durable => do
    update (raiseFrontier set.top)
    pure (.committed set.top)
  | .unknown => do
    failed
    let _ ← rollback
    modify fun op => { op with keep := true }
    pure (.notApplied .uncertain)

/-- The insert and the commit of an acknowledgement. -/
def insertAck (snapshot : Snapshot) : Op AckOutcome := do
  modify fun op => { op with issued := true }
  let answer : Insert ← io (.insertAck snapshot)
  match answer with
  | .inserted _ => commitAck snapshot.set
  | .constraint => do
    latch .constraint
    ackFailed
  | .failed => ackFailed

/-- An acknowledgement once it holds U. -/
def ackHeld (snapshot : Snapshot) : Op AckOutcome := do
  let opened : Read Unit ← io .open
  if opened ≠ .got () then do
    failed
    pure (.notApplied .notWritten)
  else do
    let answer : Read SetFacts ← io (.recheck snapshot.set.frontier snapshot.set.top)
    match answer with
    | .got now =>
      match ackRefusal snapshot.set now with
      | some refusal => do
        let _ ← rollback
        pure (.refused refusal)
      | none => insertAck snapshot
    | .failed => do
      readFailed false
      let _ ← rollback
      pure (.notApplied .notWritten)
    | .corrupt => do
      readFailed true
      let _ ← rollback
      pure (.notApplied .notWritten)

def acknowledgement (snapshot : Snapshot) : Op AckOutcome := do
  let op ← get
  if snapshot.ledger ≠ op.core.shared.address then pure (.refused .otherStore)
  else
    match holdEntry op.core with
    | some entry => pure (.refused (.notNow entry))
    | none =>
      if op.core.u.isSome then do
        latch .cellInvariant
        pure (.refused (.notNow .latched))
      else do
        let placed ← place .u (.acknowledgement snapshot.set snapshot.nonce)
        if placed = false then pure (.refused (.notNow .latched))
        else do
          modify fun op => { op with hold := .acknowledgement }
          ackHeld snapshot

/-! ## The worker's operations -/

def barrier (worker : Worker) : Op BarrierOutcome := do
  let op ← get
  if worker.ledger ≠ op.core.shared.address then pure .otherLedger
  else if op.core.phase ≠ .needBarrier then pure .notNeeded
  else do
    let passed : Bool ← io .run
    if passed = false then pure .failed
    else do
      update fun core => { core with phase := if core.u.isSome then .resolving else .healthy }
      pure .passed

/-- U is emptied and the phase healthy again. -/
def releaseU : Core := { core with u := none, phase := .healthy }

/-- `resolve_gating` where the record is in the ledger: its correction is placed in C. -/
def resolveCorrected (key : RecordKey) (exit : Exit) (row : Row) : Op Resolve := do
  let placed ← place .c (.correction key row.seq exit)
  if placed = false then pure (.refused .latched)
  else do
    let op ← get
    match op.core.occupancy .c with
    | none => pure (.refused .latched)
    | some n => do
      update releaseU
      pure (.corrected (op.core.token .c n))

/-- `resolve_gating` where the identity is in the ledger with other content: the conflict is
explained in X. -/
def resolveConflict (key : RecordKey) (existing : Row) : Op Resolve := do
  let cause : Cause := ⟨.identityContent key.id existing key.digest⟩
  let placed ← place .x (.explanation key cause)
  if placed = false then pure (.refused .latched)
  else do
    let op ← get
    match op.core.occupancy .x with
    | none => pure (.refused .latched)
    | some n => do
      update releaseU
      pure (.conflictPlaced (op.core.token .x n))

def resolveGating (record : GatingRecord) (exit : Exit) : Op Resolve := do
  let key := record.member.key
  let answer : Read (Option Row) ← io (.row key.id)
  match answer with
  | .got none => do
    update releaseU
    pure .absent
  | .got (some row) =>
    if row.digest = key.digest then resolveCorrected key exit row
    else resolveConflict key row
  | .failed => do
    failed
    pure .retained
  | .corrupt => do
    latch .corrupt
    pure (.refused .latched)

def resolveAck (set : SetFacts) (nonce : Bytes 16) : Op Resolve := do
  let answer : Read (Option Seq) ← io (.acknowledgement set nonce)
  match answer with
  | .got none => do
    update releaseU
    pure .absent
  | .got (some _) => do
    let answer : Read Seq ← io .frontier
    match answer with
    | .got durable =>
      if set.top ≤ durable then do
        update (raiseFrontier set.top)
        update releaseU
        pure (.acknowledged set.top)
      else do
        latch .inconsistent
        pure .inconsistent
    | .failed => do
      failed
      pure .retained
    | .corrupt => do
      latch .corrupt
      pure (.refused .latched)
  | .failed => do
    failed
    pure .retained
  | .corrupt => do
    latch .corrupt
    pure (.refused .latched)

/-- `resolve` where U's occupant cannot be resolved: the cells break their invariant. -/
def resolveBroken : Op Resolve := do
  latch .cellInvariant
  pure (.refused .latched)

def resolve (worker : Worker) (token : CellToken) : Op Resolve := do
  let op ← get
  if worker.ledger ≠ op.core.shared.address then pure .otherLedger
  else if op.core.names token .u = false then pure .stale
  else if op.core.session ≠ .open then pure (.refused .notOpen)
  else if op.core.latch.isSome then pure (.refused .latched)
  else if op.core.phase ≠ .resolving then pure (.refused .notHealthy)
  else
    let room := op.core.c.isNone ∧ op.core.x.isNone
    match op.core.u with
    | some (_, .gating record exit) =>
      if room ∧ exit ≠ .inCall then resolveGating record exit else resolveBroken
    | some (_, .acknowledgement set nonce) => if room then resolveAck set nonce else resolveBroken
    | _ => resolveBroken

/-- C's occupant in the ledger: C emptied. X's: X marked committed, and the original's table
entry removed. -/
def settle (cell : Cell) (seq : Seq) (core : Core) : Core :=
  if cell = .c then { core with c := none }
  else
    match core.x with
    | some (n, .explanation original cause, _) =>
      { core with
        x := some (n, .explanation original cause, .committed seq)
        refusals := core.refusals.erase original }
    | some (n, occupant, _) => { core with x := some (n, occupant, .committed seq) }
    | none => core

/-- The occupant `append_cell` appends: C's or X's own, X's committed sequence, or neither. -/
def cellOccupant (cell : Cell) : Option (Occupant ⊕ Seq) :=
  match cell, core.c, core.x with
  | .c, some (_, occupant), _ => some (.inl occupant)
  | .x, _, some (_, _, .committed seq) => some (.inr seq)
  | .x, _, some (_, occupant, .built) => some (.inl occupant)
  | _, _, _ => none

/-- The end of a cell's append whose insert failed. -/
def cellFailed : Op CellAppend := do
  failed
  let persistence ← rollback
  match persistence with
  | .notWritten => pure .notWritten
  | .uncertain => pure .uncertain

/-- The insert and the commit of a cell's occupant. -/
def insertCell (cell : Cell) (occupant : Occupant) : Op CellAppend := do
  modify fun op => { op with issued := true }
  let answer : Insert ← io (.insertCell occupant)
  match answer with
  | .inserted seq => do
    let answer : Commit ← io .commit
    match answer with
    | .durable => do
      update (settle cell seq)
      pure (.committed seq)
    | .unknown => do
      failed
      let _ ← rollback
      pure .uncertain
  | .constraint => do
    latch .constraint
    cellFailed
  | .failed => cellFailed

/-- The transaction of a cell's append. -/
def appendOccupant (cell : Cell) (occupant : Occupant) : Op CellAppend := do
  let opened : Read Unit ← io .open
  if opened ≠ .got () then do
    failed
    pure .notWritten
  else do
    let answer : Read (Option Seq) ← io (.present occupant)
    match answer with
    | .got (some seq) => do
      let _ ← rollback
      update (settle cell seq)
      pure (.committed seq)
    | .got none => insertCell cell occupant
    | .failed => do
      readFailed false
      let _ ← rollback
      pure .notWritten
    | .corrupt => do
      readFailed true
      let _ ← rollback
      pure .notWritten

def cell (worker : Worker) (token : CellToken) : Op CellAppend := do
  let op ← get
  if worker.ledger ≠ op.core.shared.address then pure .otherLedger
  else if (op.core.names token .c || op.core.names token .x) = false then pure .stale
  else if op.core.session ≠ .open then pure (.refused .notOpen)
  else if op.core.latch.isSome then pure (.refused .latched)
  else if op.core.phase ≠ .healthy then pure (.refused .notHealthy)
  else
    match cellOccupant op.core token.cell with
    | some (.inl occupant) => appendOccupant token.cell occupant
    | some (.inr seq) => pure (.committed seq)
    | none => do
      latch .cellInvariant
      pure (.refused .latched)

def empty (worker : Worker) (token : CellToken) : Op Emptying := do
  let op ← get
  if worker.ledger ≠ op.core.shared.address then pure .otherLedger
  else if op.core.names token .x = false then pure .stale
  else
    match op.core.x with
    | some (_, _, .committed _) => do
      update fun core => { core with x := none }
      pure .done
    | _ => pure .notCommitted

def sessionOpened : Op Bool := do
  let op ← get
  if op.core.session = .bootstrap then do
    update fun core => { core with session := .open }
    pure true
  else pure false

/-- Open, healthy and unlatched, with every cell empty. -/
def quiescent : Bool :=
  decide (core.session = .open) && decide (core.phase = .healthy) && core.latch.isNone &&
    core.u.isNone && core.c.isNone && core.x.isNone

def sessionSealed : Op Bool := do
  let op ← get
  if quiescent op.core then do
    update fun core => { core with session := .sealed }
    pure true
  else pure false

end Publish

/-- A store operation with its arguments. -/
inductive Call where
  | sessionOpened
  | sessionSealed
  | appendFacts (ticket : Ticket) (batch : List FactRecord)
  | appendGating (record : GatingRecord)
  | lookup (key : RecordKey)
  | explain (key : RecordKey)
  | snapshot (nonce : Bytes 16)
  | appendAcknowledgement (snapshot : Snapshot)
  | barrier (worker : Worker)
  | resolve (worker : Worker) (token : CellToken)
  | appendCell (worker : Worker) (token : CellToken)
  | empty (worker : Worker) (token : CellToken)

/-- The result of a store operation. -/
inductive Reply where
  | sessionOpened (opened : Bool)
  | sessionSealed (sealed : Bool)
  | facts (outcome : FactOutcome)
  | gating (outcome : GatingOutcome)
  | lookup (outcome : Lookup)
  | explain (outcome : Explain)
  | snapshot (outcome : SnapshotOutcome)
  | acknowledgement (outcome : AckOutcome)
  | barrier (outcome : BarrierOutcome)
  | resolve (outcome : Resolve)
  | cell (outcome : CellAppend)
  | empty (outcome : Emptying)
  deriving DecidableEq

/-- The body of a store operation. -/
def Call.body : Call → Op Reply
  | .sessionOpened => Reply.sessionOpened <$> Publish.sessionOpened
  | .sessionSealed => Reply.sessionSealed <$> Publish.sessionSealed
  | .appendFacts ticket batch => Reply.facts <$> Publish.facts ticket batch
  | .appendGating record => Reply.gating <$> Publish.gating record
  | .lookup key => Reply.lookup <$> Publish.lookup key
  | .explain key => Reply.explain <$> Publish.explain key
  | .snapshot nonce => Reply.snapshot <$> Publish.snapshot nonce
  | .appendAcknowledgement shown => Reply.acknowledgement <$> Publish.acknowledgement shown
  | .barrier worker => Reply.barrier <$> Publish.barrier worker
  | .resolve worker token => Reply.resolve <$> Publish.resolve worker token
  | .appendCell worker token => Reply.cell <$> Publish.cell worker token
  | .empty worker token => Reply.empty <$> Publish.empty worker token

/-- A store operation: the guard is created, the body runs, and `done` is set. -/
def Call.prog (core : Core) (call : Call) : Prog Verb Verb.Answer Publish Reply :=
  (call.body (.new core)).bind fun op reply => .ret { op with done := true } reply

end NexusOs.Ledger
