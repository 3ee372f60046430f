import NexusOs.Evidence.Record
import NexusOs.Lib.KeyMap

/-!
# The evidence store

`evidence_store.rs`: one append-only table of rows in a SQLite file, the process that holds it
(`Inner`) and its entry points. What SQLite and the clock do in one append is a `Disk`; a row is in
the file exactly if its COMMIT was done or failed with its row kept. The store's own statements are
kept by their fields, which `serde_json` reads back.
-/

namespace NexusOs.Evidence

open Framing Utf8

/-! ## Rows -/

/-- The phase of a row: a record's, or one of the store's own statements. -/
inductive RowPhase where
  | record (phase : EvidencePhase)
  | sessionOpened
  | sessionClosed
  | unsettled
  | uncleanSession
  | acknowledged
  deriving DecidableEq

/-- The text of a row's phase. -/
def RowPhase.asStr : RowPhase → Text
  | .record phase => phase.asStr
  | .sessionOpened => "session_opened"
  | .sessionClosed => "session_closed"
  | .unsettled => "unsettled"
  | .uncleanSession => "unclean_session"
  | .acknowledged => "acknowledged"

/-- The phases of the index `record_once`. -/
def RowPhase.onceOnly : RowPhase → Bool
  | .record phase =>
    phase ∈ [.prepared, .authorized, .started, .finished, .expired, .revoked, .denied,
      .approvalDeclined]
  | .unsettled => true
  | _ => false

/-- The body of a row: a record's JSON, or the fields of a `statement`. -/
inductive Body where
  | record (json : Text)
  | session (session : Text)
  | unsettled (commitment : Text) (startedSeq : Nat)
  | acknowledged (coversThrough : Nat)
  deriving DecidableEq

/-- What a row says: the columns an append is given. -/
structure Content where
  phase : RowPhase
  commitment : Option Text
  body : Body
  deriving DecidableEq

/-- `Row`. -/
structure Row extends Content where
  seq : Nat
  session : Text
  storedMs : Nat
  prev : Text
  tag : Text
  deriving DecidableEq

/-- SHA-256, and the JSON text of a body. -/
structure Codec where
  sha256 : Bytes → Bytes
  json : RowPhase → Body → Text

/-- `GENESIS`. -/
def genesis : Text := List.replicate 64 '0'

variable (c : Codec)

/-- `tag_of`. -/
def tagOf (store prev : Text) (seq : Nat) (session : Text) (storedMs : Nat)
    (content : Content) : Text :=
  let commitment :=
    match content.commitment with
    | some commitment => [[1], encode commitment]
    | none => [[0]]
  (hexEncode (c.sha256 (framed [] ([encode "nexus.p3.evidence.tag.v1", encode store,
    encode prev, beBytes 8 seq, encode session, beBytes 8 storedMs,
    encode content.phase.asStr] ++ commitment ++
    [encode (c.json content.phase content.body)])))).toList

/-- `Row::verifies`. -/
def Row.verifies (store : Text) (row : Row) : Bool :=
  tagOf c store row.prev row.seq row.session row.storedMs row.toContent = row.tag

/-- `Known`. -/
structure Known where
  started : List (Text × Nat)
  ended : List (Text × Unit)
  unsettled : List (Text × Nat)
  opened : List (Text × Nat)
  closed : List (Text × Unit)
  unclean : List (Text × Nat)
  acknowledged : Nat

namespace Known

/-- `Known::default`. -/
def none : Known where
  started := []
  ended := []
  unsettled := []
  opened := []
  closed := []
  unclean := []
  acknowledged := 0

/-- The phases with which the registry ends an entry. -/
def endPhases : List EvidencePhase := [.finished, .revoked, .expired, .denied, .approvalDeclined]

/-- `Known::take`. -/
def take (k : Known) (seq : Nat) (content : Content) : Known :=
  match content.phase, content.commitment, content.body with
  | .record phase, some commitment, _ =>
    if phase = .started then { k with started := KeyMap.insert commitment seq k.started }
    else if phase ∈ endPhases then { k with ended := KeyMap.insert commitment () k.ended }
    else k
  | .unsettled, some commitment, _ =>
    { k with unsettled := KeyMap.insert commitment seq k.unsettled }
  | .sessionOpened, .none, .session session => { k with opened := k.opened ++ [(session, seq)] }
  | .sessionClosed, .none, .session session =>
    { k with closed := KeyMap.insert session () k.closed }
  | .uncleanSession, .none, .session session =>
    { k with unclean := KeyMap.insert session seq k.unclean }
  | .acknowledged, .none, .acknowledged through =>
    { k with acknowledged := max k.acknowledged through }
  | _, _, _ => k

/-- `Known::recovery_required`. -/
def recoveryRequired (k : Known) : Bool := k.unsettled.any fun entry => entry.2 > k.acknowledged

end Known

/-- `Recovery`. -/
structure Recovery where
  unsettled : List Text
  uncleanSessions : List Text
  coversThrough : Nat

/-! ## One append -/

/-- `Append`. -/
inductive Append where
  | committed (seq : Nat)
  | alreadyPresent (seq : Nat)
  | notCommitted
  | uncertain
  | conflict
  | latched
  deriving DecidableEq

/-- What became of a COMMIT: done, or failed with its row in the file or not. -/
inductive Commit where
  | done
  | failed (kept : Bool)
  deriving DecidableEq

/-- What SQLite and the clock do in one append. -/
structure Disk where
  /-- `BEGIN IMMEDIATE` succeeds. -/
  begins : Bool
  /-- The connection is in autocommit mode after a `BEGIN` that failed. -/
  autocommits : Bool
  /-- The insert fails for no other reason than a constraint. -/
  inserts : Bool
  /-- `rolled_back` answers true. -/
  rollsBack : Bool
  /-- `already` can read the row it looks for. -/
  reads : Bool
  commit : Commit
  /-- `wall_ms`. -/
  wallMs : Nat
  deriving DecidableEq

/-- `Owed`. -/
structure Owed extends Content where
  record : Option EvidenceRecord

/-- `body_of`, with the phase and the commitment. -/
def EvidenceRecord.content (record : EvidenceRecord) : Content where
  phase := .record record.phase
  commitment := record.commitment
  body := .record record.json

/-- `Owed::of`. -/
def Owed.of (record : EvidenceRecord) : Owed := { record.content with record := some record }

/-- `OWED_CAPACITY`. -/
def owedCapacity : Nat := 2 * 4096

/-- `i64::try_from(n).unwrap_or(i64::MAX)`. -/
def toI64 (n : Nat) : Nat := min n (2 ^ 63 - 1)

/-- `Inner`: the process's view of the store, and the rows of its connection. -/
structure Inner where
  conn : List Row
  store : Text
  session : Text
  lastSeq : Nat
  lastTag : Text
  isLatched : Bool
  known : Known
  owed : List Owed

namespace Inner

variable (s : Inner)

/-- `Inner::latch`. -/
def latch : Inner := { s with isLatched := true }

/-- The rows `already` selects. -/
def sameOnce (content : Content) : List Row :=
  s.conn.filter fun row => row.commitment = content.commitment && row.phase = content.phase

variable (c : Codec)

/-- `Inner::already`. -/
def already (disk : Disk) (content : Content) (s : Inner) : Append × Inner :=
  match disk.reads, s.sameOnce content with
  | true, [row] =>
    if !row.verifies c s.store then (.latched, s.latch)
    else if row.body = content.body then (.alreadyPresent row.seq, s)
    else (.conflict, s.latch)
  | _, _ => (.uncertain, s.latch)

/-- The row of an append. -/
def nextRow (disk : Disk) (content : Content) (s : Inner) : Row :=
  { content with
    seq := toI64 (s.lastSeq + 1)
    session := s.session
    storedMs := toI64 disk.wallMs
    prev := s.lastTag
    tag := tagOf c s.store s.lastTag (s.lastSeq + 1) s.session disk.wallMs content }

/-- The index `record_once` refuses the row. -/
def breaksOnce (content : Content) : Bool :=
  content.phase.onceOnly && content.commitment.isSome && s.sameOnce content ≠ []

/-- `Inner::append`. -/
def append (disk : Disk) (content : Content) (s : Inner) : Append × Inner :=
  if s.isLatched then (.latched, s)
  else if s.lastSeq + 1 ≥ 2 ^ 64 then (.uncertain, s.latch)
  else if !disk.begins then
    if disk.autocommits then (.notCommitted, s) else (.uncertain, s.latch)
  else
    let row := s.nextRow c disk content
    if !disk.inserts then
      if disk.rollsBack then (.notCommitted, s) else (.uncertain, s.latch)
    -- the primary key: the store's view of the chain has diverged from the file
    else if s.conn.any fun r => r.seq = row.seq then (.uncertain, s.latch)
    else if s.breaksOnce content then
      if disk.rollsBack then s.already c disk content else (.uncertain, s.latch)
    else
      match disk.commit with
      | .failed kept =>
        (.uncertain, { s.latch with conn := if kept then s.conn ++ [row] else s.conn })
      | .done =>
        (.committed (s.lastSeq + 1),
          { s with
            conn := s.conn ++ [row]
            known := s.known.take (s.lastSeq + 1) content
            lastSeq := s.lastSeq + 1
            lastTag := row.tag })

/-- The loop of `pay_owed`, with appends counted from `i`: whether all were written, the store, and
the records written. -/
def payLoop (c : Codec) (disks : Nat → Disk) :
    Nat → List Owed → Inner → Bool × Inner × List EvidenceRecord
  | _, [], s => (true, s, [])
  | i, owed :: rest, s =>
    match s.append c (disks i) owed.toContent with
    | (.committed _, s) | (.alreadyPresent _, s) =>
      let (paid, s, written) := payLoop c disks (i + 1) rest { s with owed := rest }
      (paid, s, owed.record.toList ++ written)
    | (_, s) => (false, s, [])

/-- `Inner::pay_owed`. -/
def payOwed (disks : Nat → Disk) (s : Inner) : Bool × Inner × List EvidenceRecord :=
  payLoop c disks 0 s.owed s

/-- `Inner::owe`. -/
def owe (owed : Owed) (s : Inner) : EndStatus × Inner :=
  if s.owed.length ≥ owedCapacity then (.uncertain, s.latch)
  else (.owed, { s with owed := s.owed ++ [owed] })

/-- `Inner::owe_unless_latched`. -/
def oweUnlessLatched (owed : Owed) (s : Inner) : EndStatus × Inner :=
  if s.isLatched then (.uncertain, s) else s.owe owed

/-! ## The entry points -/

/-- `EvidenceStore::gate`: the sequence number, or an error. The records owed are appended before.
-/
def gate (disks : Nat → Disk) (record : EvidenceRecord) (s : Inner) :
    Option Nat × List EvidenceRecord × Inner :=
  if s.isLatched || s.known.recoveryRequired then (none, [], s)
  else
    match s.payOwed c disks with
    | (false, s', written) => (none, written, s')
    | (true, s', written) =>
      match s'.append c (disks s.owed.length) record.content with
      | (.committed seq, s') | (.alreadyPresent seq, s') => (some seq, written ++ [record], s')
      | (_, s') => (none, written, s')

/-- An end record or `session_closed`: written, owed or uncertain. -/
def endWith (disks : Nat → Disk) (owed : Owed) (s : Inner) :
    EndStatus × List EvidenceRecord × Inner :=
  if s.isLatched then
    let (status, s) := s.oweUnlessLatched owed
    (status, [], s)
  else
    match s.payOwed c disks with
    | (false, s', written) =>
      let (status, s') := s'.oweUnlessLatched owed
      (status, written, s')
    | (true, s', written) =>
      match s'.append c (disks s.owed.length) owed.toContent with
      | (.committed seq, s') | (.alreadyPresent seq, s') =>
        (.recorded seq, written ++ owed.record.toList, s')
      | (.notCommitted, s') =>
        let (status, s') := s'.owe owed
        (status, written, s')
      | (_, s') => (.uncertain, written, s')

/-- `EvidenceStore::end`. -/
def endRecord (disks : Nat → Disk) (record : EvidenceRecord) (s : Inner) :
    EndStatus × List EvidenceRecord × Inner :=
  s.endWith c disks (.of record)

/-- The statement of `close_session`. -/
def closedStatement : Owed where
  phase := .sessionClosed
  commitment := none
  body := .session s.session
  record := none

/-- `EvidenceStore::close_session`. -/
def closeSession (disks : Nat → Disk) (s : Inner) : EndStatus × List EvidenceRecord × Inner :=
  s.endWith c disks s.closedStatement

/-- The statement of `acknowledge`. -/
def acknowledgement (coversThrough : Nat) : Content where
  phase := .acknowledged
  commitment := none
  body := .acknowledged coversThrough

/-- `EvidenceStore::acknowledge`. -/
def acknowledge (disks : Nat → Disk) (coversThrough : Nat) (s : Inner) :
    Option Nat × List EvidenceRecord × Inner :=
  if s.isLatched || coversThrough > s.lastSeq then (none, [], s)
  else
    match s.payOwed c disks with
    | (false, s', written) => (none, written, s')
    | (true, s', written) =>
      match s'.append c (disks s.owed.length) (acknowledgement coversThrough) with
      | (.committed seq, s') => (some seq, written, s')
      | (_, s') => (none, written, s')

/-- The first twelve characters of an id. -/
def short (id : Text) : Text := id.take 12

/-- The statements of a map that no acknowledgement covers, with short ids, sorted. -/
def shown (statements : List (Text × Nat)) (acknowledged : Nat) : List (Nat × Text) :=
  ((statements.filter fun entry => entry.2 > acknowledged).map fun entry =>
    (entry.2, short entry.1)).mergeSort fun a b => a.1 < b.1 || a.1 = b.1 && !decide (b.2 < a.2)

/-- `EvidenceStore::recovery`. -/
def recovery : Option Recovery :=
  if s.isLatched || !s.known.recoveryRequired then none
  else
    let unsettled := shown s.known.unsettled s.known.acknowledged
    let unclean := shown s.known.unclean s.known.acknowledged
    ((unsettled ++ unclean).map Prod.fst).max?.map fun coversThrough =>
      { unsettled := unsettled.map Prod.snd
        uncleanSessions := unclean.map Prod.snd
        coversThrough }

end Inner

/-! ## Qualification -/

/-- `Unqualified`, as far as `qualify` answers it. -/
inductive Unqualified where
  | notAStore
  | integrity
  | schema
  | identity
  | chain
  | sqlite
  | latched
  deriving DecidableEq

/-- The loop of `verify_chain`. -/
def verifyLoop (c : Codec) (store : Text) : Nat → Text → List Row → Option (Nat × Text)
  | lastSeq, lastTag, [] => some (lastSeq, lastTag)
  | lastSeq, lastTag, row :: rows =>
    if lastSeq + 1 ≥ 2 ^ 64 ∨ row.seq ≠ lastSeq + 1 ∨ row.prev ≠ lastTag ∨
        !row.verifies c store then none
    else verifyLoop c store row.seq row.tag rows

/-- `verify_chain`. -/
def verifyChain (store : Text) (rows : List Row) : Option (Nat × Text) :=
  verifyLoop c store 0 genesis rows

/-- `acknowledgements_precede`. -/
def acknowledgementsPrecede (rows : List Row) : Bool :=
  rows.all fun row =>
    match row.phase, row.commitment, row.body with
    | .acknowledged, none, .acknowledged through => through < row.seq
    | _, _, _ => true

/-- What SQLite and the random source do at an opening. -/
structure Opening where
  /-- What the application id, integrity check, schema and identity row come to. -/
  checks : Option Unqualified
  /-- The rows can be read. -/
  reads : Bool
  /-- `random_hex`. -/
  session : Option Text
  disks : Nat → Disk

namespace Inner

/-- `Inner::statement`. -/
def statement (c : Codec) (disk : Disk) (content : Content) (s : Inner) :
    Except Unqualified Unit × Inner :=
  match s.append c disk content with
  | (.committed _, s) => (.ok (), s)
  | (.notCommitted, s) => (.error .sqlite, s)
  | (_, s) => (.error .latched, s)

/-- Statements, with appends counted from `i`, until one is not written. -/
def statements (c : Codec) (disks : Nat → Disk) :
    Nat → List Content → Inner → Except Unqualified Unit × Inner
  | _, [], s => (.ok (), s)
  | i, content :: rest, s =>
    match s.statement c (disks i) content with
    | (.ok (), s) => statements c disks (i + 1) rest s
    | (.error e, s) => (.error e, s)

/-- The `session_opened` of `open_session`. -/
def openedStatement (s : Inner) : Content where
  phase := .sessionOpened
  commitment := none
  body := .session s.session

/-- The `unsettled` statements of `reconcile`. -/
def unsettledStatements (s : Inner) : List Content :=
  (s.known.started.filter fun entry =>
    !KeyMap.contains entry.1 s.known.ended && !KeyMap.contains entry.1 s.known.unsettled).map
    fun entry =>
      { phase := .unsettled
        commitment := some entry.1
        body := .unsettled entry.1 entry.2 }

/-- The `unclean_session` statements of `reconcile`. -/
def uncleanStatements (s : Inner) : List Content :=
  ((s.known.opened.map Prod.fst).filter fun session =>
    session ≠ s.session && !KeyMap.contains session s.known.closed &&
      !KeyMap.contains session s.known.unclean).map
    fun session =>
      { phase := .uncleanSession
        commitment := none
        body := .session session }

/-- `Inner::reconcile`, its appends counted from `i`. -/
def reconcile (c : Codec) (disks : Nat → Disk) (i : Nat) (s : Inner) :
    Except Unqualified Unit × Inner :=
  let unsettled := s.unsettledStatements
  match s.statements c disks i unsettled with
  | (.ok (), s) => s.statements c disks (i + unsettled.length) s.uncleanStatements
  | (.error e, s) => (.error e, s)

end Inner

/-- The view of a verified chain, before anything is written. -/
def Inner.ofRows (store session : Text) (rows : List Row) (last : Nat × Text) : Inner where
  conn := rows
  store
  session
  lastSeq := last.1
  lastTag := last.2
  isLatched := false
  known := rows.foldl (fun k row => k.take row.seq row.toContent) Known.none
  owed := []

/-- `EvidenceStore::qualify`: the store, or why not, and the file's rows after it. -/
def qualify (store : Text) (o : Opening) (rows : List Row) : Except Unqualified Inner × List Row :=
  match o.checks with
  | some e => (.error e, rows)
  | none =>
    match if o.reads then verifyChain c store rows else none with
    | none => (.error .chain, rows)
    | some last =>
      if !acknowledgementsPrecede rows then (.error .chain, rows)
      else
        match o.session with
        | none => (.error .sqlite, rows)
        | some session =>
          let s := Inner.ofRows store session rows last
          match s.statement c (o.disks 0) s.openedStatement with
          | (.error e, s) => (.error e, s.conn)
          | (.ok (), s) =>
            match s.reconcile c o.disks 1 with
            | (.error e, s) => (.error e, s.conn)
            | (.ok (), s) => (.ok s, s.conn)

end NexusOs.Evidence
