import NexusOs.Audit.Merkle
import NexusOs.Lib.Chain
import NexusOs.Lib.Transition

/-!
# The audit trail and its archive

`audit/mod.rs` and `audit/retention.rs`: a trail of events, each with the hash of the one before,
and the segments into which its oldest events are moved. The file of a segment stands under its id.
SHA-256, `serde_json` and the compression of files are parameters. Of the batcher only the lock
matters here.
-/

namespace NexusOs.Audit

open Chain Framing Transition Utf8

/-- `EventType`. -/
inductive EventType where
  | stateChange
  | toolCall
  | llmCall
  | error
  | userAction
  deriving DecidableEq

/-- `CanonicalEventData`: what is hashed of an event. -/
structure CanonicalEventData (Value : Type) where
  eventId : Nat
  timestamp : Nat
  agentId : Nat
  eventType : EventType
  payload : Value
  deriving DecidableEq

/-- `AuditEvent`. -/
structure AuditEvent (Value : Type) extends CanonicalEventData Value where
  previousHash : Text
  hash : Text
  deriving DecidableEq

/-- `ArchiveError`. -/
inductive ArchiveError where
  | ioError (message : Text)
  | deserializationError (message : Text)

/-- SHA-256, `serde_json`, and how the file of a segment is written and read. -/
structure Codec (Value : Type) where
  sha : Bytes → Bytes
  json : CanonicalEventData Value → Option Bytes
  encode : List (AuditEvent Value) → Bytes
  decode : Bytes → Except ArchiveError (List (AuditEvent Value))

/-- `GENESIS_HASH`. -/
def genesisHash : Text := List.replicate 64 '0'

variable {Value : Type} (c : Codec Value)

/-- What `compute_hash` hashes. -/
def Codec.input (data : CanonicalEventData Value) (previousHash : Text) : Option Bytes :=
  (c.json data).map fun serialized => Utf8.encode previousHash ++ serialized

/-- `compute_hash`; `none` if the event does not serialize. -/
def Codec.computeHash (data : CanonicalEventData Value) (previousHash : Text) : Option Text :=
  (c.input data previousHash).map fun input => encodeHex (c.sha input)

/-- `verify_event_chain`. -/
def Codec.verifyEventChain : Text → List (AuditEvent Value) → Bool
  | _, [] => true
  | expectedPrevious, event :: events =>
    event.previousHash = expectedPrevious &&
      c.computeHash event.toCanonicalEventData event.previousHash = some event.hash &&
      verifyEventChain event.hash events

/-- `RetentionConfig`. -/
structure RetentionConfig where
  maxLiveEvents : Nat
  segmentSize : Nat

/-- `ArchivedSegment`, as far as it is read. -/
structure ArchivedSegment where
  segmentId : Nat
  merkleRoot : Text
  lastEventHash : Text
  chainLinkHash : Text

/-- `RetentionBuffer`, as far as a trail uses it. -/
structure RetentionBuffer where
  segments : List ArchivedSegment := []
  nextSegmentId : Nat := 0
  config : RetentionConfig
  totalEventCount : Nat := 0

/-- `AuditTrail`. -/
structure AuditTrail (Value : Type) where
  events : List (AuditEvent Value) := []
  retention : Option RetentionBuffer := none

/-- A trail, and the files of its archive. -/
structure World (Value : Type) where
  trail : AuditTrail Value
  files : Nat → Option Bytes := fun _ => none

/-- `AuditError`. -/
inductive AuditError where
  | batcherPoisoned
  | serializationFailed
  deriving DecidableEq

/-- How the files of a segment are written: both, or a failure that leaves some file. -/
inductive Write where
  | written
  | failed (left : Option Bytes)

/-- The hash that the next event follows, and `verify_integrity` starts from. -/
def RetentionBuffer.lastHash (buffer : RetentionBuffer) : Text :=
  head ArchivedSegment.lastEventHash genesisHash buffer.segments

variable (t : AuditTrail Value)

/-- The archived hash that the events in memory follow. -/
def AuditTrail.startHash : Text := (t.retention.map RetentionBuffer.lastHash).getD genesisHash

/-- `AuditTrail::verify_integrity`. -/
def AuditTrail.verifyIntegrity : Bool := c.verifyEventChain t.startHash t.events

/-- `AuditTrail::total_event_count`. -/
def AuditTrail.totalEventCount (t : AuditTrail Value) : Nat :=
  match t.retention with
  | none => t.events.length
  | some buffer => buffer.totalEventCount

/-- The metadata of a segment. The hashes of events are hexadecimal, so that their root does not
panic. -/
def segmentOf (segmentId : Nat) (first : AuditEvent Value) (events : List (AuditEvent Value)) :
    ArchivedSegment where
  segmentId
  merkleRoot := ((merkleRoot c.sha (events.map AuditEvent.hash)).join).getD genesisHash
  lastEventHash := head AuditEvent.hash genesisHash events
  chainLinkHash := first.previousHash

/-- `archive_from_vec` with `write_segment`. The oldest events leave the memory before they are
written. -/
def World.archive (w : World Value) (buffer : RetentionBuffer) (write : Write) :
    Except AuditError Unit × World Value :=
  match w.trail.events.take buffer.config.segmentSize with
  | [] => (.ok (), w)
  | first :: rest =>
    let id := buffer.nextSegmentId
    let drained := { w.trail with events := w.trail.events.drop buffer.config.segmentSize }
    let buffer := { buffer with nextSegmentId := id + 1 }
    let file (f : Option Bytes) : Nat → Option Bytes := fun i => if i = id then f else w.files i
    match write with
    | .failed left =>
      (.error .serializationFailed,
        { trail := { drained with retention := some buffer }, files := file left })
    | .written =>
      let segments := buffer.segments ++ [segmentOf c id first (first :: rest)]
      (.ok (), { trail := { drained with retention := some { buffer with segments } }
                 files := file (some (c.encode (first :: rest))) })

/-- The event that an append makes of its data. -/
def AuditTrail.event (data : CanonicalEventData Value) : Option (AuditEvent Value) :=
  let previousHash := head AuditEvent.hash t.startHash t.events
  (c.computeHash data previousHash).map fun hash => { data with previousHash, hash }

/-- The append archives the oldest events. -/
def AuditTrail.archives : Bool :=
  match t.retention with
  | none => false
  | some buffer => buffer.config.maxLiveEvents < t.events.length + 1

/-- The part of `append_event` that bounds the memory. -/
def World.retain (w : World Value) (write : Write) : Except AuditError Unit × World Value :=
  match w.trail.retention with
  | none => (.ok (), w)
  | some buffer =>
    let buffer := { buffer with totalEventCount := buffer.totalEventCount + 1 }
    let w := { w with trail := { w.trail with retention := some buffer } }
    if buffer.config.maxLiveEvents < w.trail.events.length then w.archive c buffer write
    else (.ok (), w)

/-- `AuditTrail::append_event`, with the id and the time it draws. -/
def World.appendEvent (w : World Value) (data : CanonicalEventData Value) (write : Write)
    (poisoned : Bool) : Except AuditError Nat × World Value :=
  match w.trail.event c data with
  | none => (.error .serializationFailed, w)
  | some event =>
    match { w with trail := { w.trail with events := w.trail.events ++ [event] } }.retain c
      write with
    | (.error error, w) => (.error error, w)
    | (.ok (), w) => (if poisoned then .error .batcherPoisoned else .ok data.eventId, w)

/-- `AuditTrail::enable_retention`. -/
def AuditTrail.enableRetention (config : RetentionConfig) : AuditTrail Value :=
  { t with retention := some { config, totalEventCount := t.events.length } }

/-- `AuditTrail::archived_segments`. -/
def World.segments (w : World Value) : List ArchivedSegment :=
  (w.trail.retention.map RetentionBuffer.segments).getD []

end NexusOs.Audit
