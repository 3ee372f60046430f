import Mathlib

/-!
# The data of the ledger's protocol core

The types of `ledger/protocol.rs`: records, the answers of the storage verbs, the results
of the store operations, cells and tokens. Arrays of bytes are `Bytes`; sequence numbers,
counts and indices, which the core only compares and copies, are natural numbers. An
`Arc<Shared>` is named by its address, since the code compares such handles with
`Arc::ptr_eq` only.
-/

namespace NexusOs.Ledger

/-- `[u8; n]`, read as one number: the core compares such arrays and never looks inside. -/
abbrev Bytes (n : Nat) := BitVec (8 * n)

/-- `Seq`, the position of a row in the ledger, counted from 1. -/
abbrev Seq := Nat

/-- The address of a ledger's one shared allocation. -/
abbrev LedgerId := Nat

/-- The most members a batch may have. -/
def BATCH_MAX : Nat := 256

/-! ## Records, as the core sees them -/

/-- An original: a record's identity together with its digest. -/
structure RecordKey where
  id : Bytes 32
  digest : Bytes 32
  deriving DecidableEq

/-- The role of a record in its commitment. `ended` is the source's `End`. -/
inductive Role where
  | prepared
  | started
  | ended
  deriving DecidableEq

structure Part where
  commitment : Bytes 32
  role : Role
  deriving DecidableEq

structure Member where
  key : RecordKey
  part : Option Part
  deriving DecidableEq

/-- A record a first writer or settlement appends. -/
structure FactRecord where
  member : Member
  deriving DecidableEq

/-- A record an ordering point appends. -/
structure GatingRecord where
  member : Member
  deriving DecidableEq

structure Limits where
  tickets : Nat
  refusals : Nat

/-! ## Phase, session and tickets -/

inductive Phase where
  | healthy
  | needBarrier
  | resolving
  deriving DecidableEq

inductive Session where
  | bootstrap
  | open
  | sealed
  deriving DecidableEq

inductive Persistence where
  | notWritten
  | uncertain
  deriving DecidableEq

/-- What a Counted ticket says: whether anything can have been written, and for a conflict,
which member. -/
structure Counted where
  persistence : Persistence
  conflictMember : Option Nat
  deriving DecidableEq

inductive TicketState where
  | armed
  | counted (counted : Counted)
  | settled
  deriving DecidableEq

/-- One attempt in flight or one handover not yet confirmed. -/
structure Ticket where
  shared : LedgerId
  state : TicketState
  deriving DecidableEq

/-! ## Causes -/

structure Row where
  seq : Seq
  digest : Bytes 32
  deriving DecidableEq

structure Holder where
  id : Bytes 32
  seq : Seq
  deriving DecidableEq

inductive CauseKind where
  | identityContent (id : Bytes 32) (existing : Row) (offered : Bytes 32)
  | duplicateRole (part : Part) (holder : Holder) (offered : RecordKey)
  | missingPrepared (part : Part) (offered : RecordKey)
  deriving DecidableEq

/-- Why an original conflicts. Built only by the core, from committed rows. -/
structure Cause where
  kind : CauseKind
  deriving DecidableEq

/-! ## Answers of the storage verbs -/

inductive Read (α : Type) where
  | got (value : α)
  | failed
  | corrupt
  deriving DecidableEq

inductive Insert where
  | inserted (seq : Seq)
  | constraint
  | failed
  deriving DecidableEq

inductive Commit where
  | durable
  | unknown
  deriving DecidableEq

inductive Rollback where
  | undone
  | unknown
  deriving DecidableEq

structure MemberFacts where
  row : Option Row
  explained : Option Seq
  corrected : Option Seq
  holder : Option Holder
  prepared : Bool
  deriving DecidableEq

structure SetFacts where
  frontier : Seq
  head : Seq
  top : Seq
  count : Nat
  digest : Bytes 32
  deriving DecidableEq

/-! ## Results -/

inductive Entry where
  | notOpen
  | latched
  | notHealthy
  | cellsBusy
  | malformed
  | expired
  deriving DecidableEq

inductive TicketFault where
  | otherLedger
  | notArmed
  deriving DecidableEq

inductive Known where
  | cause (cause : Cause)
  | explained (seq : Seq)
  deriving DecidableEq

inductive Reason where
  | entry (entry : Entry)
  | conflict (member : Nat) (known : Known)
  | sessionClosed (member : Nat)
  | corrected (seq : Seq)
  | tableFull (member : Nat)
  | constraint
  | storage
  deriving DecidableEq

inductive FactOutcome where
  | committed
  | notApplied (counted : Counted) (reason : Reason)
  | rejected (fault : TicketFault)
  deriving DecidableEq

inductive GatingOutcome where
  | committed (seq : Seq)
  | refused (persistence : Persistence) (reason : Reason)
  deriving DecidableEq

inductive Lookup where
  | present (seq : Seq)
  | absent
  | conflict (known : Known)
  | refused (entry : Entry)
  | failed
  deriving DecidableEq

inductive Explain where
  | explained (seq : Seq)
  | pending
  | busy
  | unknown
  | refused (entry : Entry)
  deriving DecidableEq

/-! ## Acknowledgement -/

/-- The set the Owner is shown. -/
structure Snapshot where
  ledger : LedgerId
  set : SetFacts
  nonce : Bytes 16
  deriving DecidableEq

inductive SnapshotOutcome where
  | taken (snapshot : Snapshot)
  | nothing
  | notNow (entry : Entry)
  | failed
  deriving DecidableEq

inductive AckRefusal where
  | otherStore
  | notNow (entry : Entry)
  | stale
  | empty
  | future
  | set
  deriving DecidableEq

inductive AckOutcome where
  | committed (seq : Seq)
  | refused (refusal : AckRefusal)
  | notApplied (persistence : Persistence)
  deriving DecidableEq

/-! ## Cells and the worker -/

/-- The one worker of a ledger. -/
structure Worker where
  ledger : LedgerId
  deriving DecidableEq

inductive Cell where
  | u
  | c
  | x
  deriving DecidableEq

/-- A name for one occupancy of one cell of one ledger. -/
structure CellToken where
  ledger : LedgerId
  cell : Cell
  occupancy : Nat
  deriving DecidableEq

inductive Stage where
  | built
  | committed (seq : Seq)
  deriving DecidableEq

/-- How a gating attempt left U. `inCall` exists only while the call runs. -/
inductive Exit where
  | inCall
  | returnedUncertain
  | unwound
  deriving DecidableEq

inductive Occupant where
  | gating (record : GatingRecord) (exit : Exit)
  | acknowledgement (set : SetFacts) (nonce : Bytes 16)
  | correction (about : RecordKey) (seq : Seq) (exit : Exit)
  | explanation (original : RecordKey) (cause : Cause)
  deriving DecidableEq

inductive LatchCause where
  | constraint
  | tableFull
  | ticketFault
  | cellInvariant
  | inconsistent
  | corrupt
  | overflow
  deriving DecidableEq

inductive BarrierOutcome where
  | passed
  | failed
  | notNeeded
  | otherLedger
  deriving DecidableEq

inductive Resolve where
  | absent
  | corrected (token : CellToken)
  | acknowledged (seq : Seq)
  | conflictPlaced (token : CellToken)
  | retained
  | inconsistent
  | stale
  | refused (entry : Entry)
  | otherLedger
  deriving DecidableEq

inductive CellAppend where
  | committed (seq : Seq)
  | notWritten
  | uncertain
  | stale
  | refused (entry : Entry)
  | otherLedger
  deriving DecidableEq

inductive Emptying where
  | done
  | notCommitted
  | stale
  | otherLedger
  deriving DecidableEq

end NexusOs.Ledger
