import NexusOs.Lib.Framing
import NexusOs.Mother.State

/-!
# The mission journal

`journal.rs`: the events a journal records, its entries, the hash chain over them and `verify`,
which reads a journal back. What `serde_json` and `sha2` do is a parameter, `Codec`: how an
event and an entry are rendered and read, and the digest of a text of bytes.
-/

namespace NexusOs.Mother

open Framing

/-- `Event`: what happened. -/
inductive Event where
  | drafted (contract : ContractRef)
  | transition (trigger : Trigger)
  | consentRefused (reason : ConsentRefusedReason)
  | laneInvoked (invocation : InvocationId) (role : LaneRole) (identitySha256 inputHash : String)
      (modelCap modelBudget : Nat)
  | modelCallCharged (invocation : InvocationId) (call : Nat)
  | laneReturned (invocation : InvocationId) (outputHash : String)
  | laneOvertaken (invocation : InvocationId)
  | effectRefused (kind : EffectKind) (reason : MotherRefusal)
  | effectDispatched (effect : Nat) (kind : EffectKind) (requestHash : String)
  | effectSettled (effect : Nat) (outcome : SettledOutcome)
  | approvalPending (effect : Nat) (pending : PendingAction)
  | approvalClosed (effect : Nat)
  | sessionOpened
  | sessionClosed
  | held (reason : HeldReason)
  | resumed
  | fileModeSelected
  | settlementStarted (effect : Nat) (cause : SettleCause)
  | deliverableRetained (invocation : InvocationId) (effect : Nat) (content : ContentId)
      (sha256 : String) (bytes : Nat)
  | publicationReceipt (effect : Nat) (action : PendingAction) (sha256 : String) (bytes : Nat)
      (policyHash : Option String) (overtaken : Bool)
  | verificationRecorded (invocation : InvocationId) (effect : Nat) (reportDigest : String)
      (checks : List (String × String))
  deriving DecidableEq

/-- `Entry`: one journal entry. -/
@[ext]
structure Entry where
  format : Nat
  seq : Nat
  prev : String
  mission : MissionId
  event : Event
  hash : String
  deriving DecidableEq

/-- `FORMAT`: the journal format every entry carries. -/
def FORMAT : Nat := 2

/-- `GENESIS`: the `prev` of the first entry. -/
def GENESIS : String := "0000000000000000000000000000000000000000000000000000000000000000"

/-- `ENTRY_DOMAIN`. -/
def ENTRY_DOMAIN : String := "nexus-mother-journal-v2\n"

/-- `ReplayViolation`: why replay refused a verified entry. -/
inductive ReplayViolation where
  | notEvidence
  | sessionRecordNamesMission
  | closeOfNoSession
  | closeWithUnheldMission
  | recordAfterClose
  | draftedOutOfOrder
  | tooManyMissions
  | neverDrafted
  | recordWhileHeld
  | recordBeforeHold
  | illegalTransition
  | transitionWhileUnsettled
  | submitOtherHash
  | consentOtherHash
  | workWithoutConsent
  | waitNotAwaiting
  | waitNotWritten
  | approvalOfOtherWait
  | endOfOtherWait
  | modelChargeOutOfPlace
  | modelBudgetMismatch
  | laneOutOfPlace
  | laneAnswerWithoutCall
  | dispatchOutOfPlace
  | settledNotDispatched
  | pendingOutOfPlace
  | closureOfNoAction
  | holdOutOfPlace
  | resumeNotHeld
  | settlementOutOfPlace
  | settlementConflict
  | proofOutOfPlace
  | proofConflict
  deriving DecidableEq

/-- A SHA-256 digest: 32 bytes. -/
abbrev Digest := Vector UInt8 32

/-- What the code takes from `serde_json` and `sha2`. What is read as an entry has numbers that
fit the fields' types. -/
structure Codec where
  /-- `serde_json::to_vec` of an event. -/
  eventJson : Event → Bytes
  /-- `serde_json::to_string` of an entry. -/
  toLine : Entry → String
  /-- The `format` field of a line read as a JSON value; `none` if it is not one. -/
  valueFormat : String → Option (Option Nat)
  /-- `serde_json::from_str` of an entry. -/
  fromStr : String → Option Entry
  /-- `Sha256::digest`. -/
  digest : Bytes → Digest
  fromStr_fits {line : String} {entry : Entry} :
    fromStr line = some entry → entry.format < 2 ^ 8 ∧ entry.seq < 2 ^ 64 ∧ entry.mission < 2 ^ 64

namespace Entry

/-- The bytes an entry's hash covers: the previous hash, the format, the sequence number, the
mission and the event. -/
def preimage (c : Codec) (entry : Entry) : Bytes :=
  framed (utf8 ENTRY_DOMAIN)
    [utf8 entry.prev, [UInt8.ofNat entry.format], beBytes 8 entry.seq,
      beBytes 8 entry.mission, c.eventJson entry.event]

end Entry

end NexusOs.Mother
