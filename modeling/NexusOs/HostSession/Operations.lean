import NexusOs.HostSession.Memory

/-!
# The operations of a host session

The operations of `host_session.rs`, `host_session/close.rs`, `host_session/stop.rs` and of the host
cells of `authority/file_session.rs`, as programs of atomic actions. A loop is looked at for some
number of rounds: every run of the source is a run with enough of them.
-/

namespace NexusOs.HostSession

open Utf8 Evidence Threads

/-- The programs of a session. -/
abbrev P := Prog Answer

/-- One action. -/
def act (a : Action) : P (Answer a) := Prog.perform a

/-- A loop that is still going on. -/
def spinning {α : Type} : P α := .step .spin Empty.elim

/-- `HaltCell::session_word`. -/
def sessionWord : P Word := act .load

/-- The loop of `fetch_update`, from a word that was read. -/
def fetchUpdate (why : Change) (f : Word → Option Word) : Nat → Word → P (Except Word Unit)
  | 0, _ => spinning
  | rounds + 1, previous =>
    match f previous with
    | none => pure (.error previous)
    | some next => do
      match ← act (.exchange why previous next) with
      | .ok () => return .ok ()
      | .error now => fetchUpdate why f rounds now

/-- `HaltCell::update`. -/
def update (why : Change) (f : Word → Option Word) (rounds : Nat) : P (Except Word Unit) := do
  fetchUpdate why f rounds (← act .load)

/-- `HaltCell::session_compare`. -/
def sessionCompare (why : Change) (old new : Word) (rounds : Nat) : P (Except Word Unit) :=
  update why (fun word => if word = old then some new else none) rounds

/-- `HaltCell::latch`, on a host cell. -/
def latch (tag : HaltTag) (emergency : Bool) (rounds : Nat) : P Unit := do
  let _ ← update (.latch tag emergency) (latchNext tag.bits emergency) rounds
  return ()

/-- The loop of `SessionIngress::fail`. -/
def failLoop (rounds : Nat) : Nat → P Unit
  | 0 => spinning
  | left + 1 => do
    let old ← sessionWord
    if old &&& Mask.sealed ≠ 0 ∨ old &&& Mask.failed ≠ 0 then return ()
    match ← sessionCompare .fail old (old ||| Mask.failed) rounds with
    | .ok () =>
      let sequence ← act .loadSequence
      let _ ← act (.initClose { sequence, generation := epoch old })
      return ()
    | .error _ => failLoop rounds left

/-- `SessionIngress::fail`. The time of the first trigger is not kept. -/
def fail (rounds : Nat) : P Unit := do
  if (← sessionWord) &&& Mask.sealed ≠ 0 then return ()
  failLoop rounds rounds

/-- `RequestScope::fail`, and so `HaltCell::fail_session`. -/
def failSession (rounds : Nat) : P Unit := do
  if ← act (.ask .coreThere) then fail rounds

/-- `Stops::register`. -/
def registerStop (generation rounds : Nat) : P (Except SessionError IngressEvent) := do
  match ← act .takeStop with
  | none =>
    act .overflow
    fail rounds
    return .error .exhausted
  | some index =>
    act (.storeGeneration index generation)
    act (.storePhase index .pending)
    return .ok { generation, index }

/-- The loop of `SessionIngress::emergency`. -/
def emergencyLoop (rounds : Nat) : Nat → P (Except SessionError IngressEvent)
  | 0 => spinning
  | left + 1 => do
    let old ← sessionWord
    if old &&& Mask.sealed ≠ 0 then return .error .sessionEnded
    if old &&& epochMask = epochMask then
      fail rounds
      return .error .exhausted
    match ← sessionCompare .emergency old (emergencyNext old) rounds with
    | .ok () => registerStop (epoch (emergencyNext old)) rounds
    | .error _ => emergencyLoop rounds left

/-- `SessionIngress::emergency`. -/
def emergency (rounds : Nat) : P (Except SessionError IngressEvent) := emergencyLoop rounds rounds

/-! ## Requests -/

/-- The loop of a quit, from a word that was read. -/
def closingLoop (rounds : Nat) : Nat → Word → P (Except SessionError Unit)
  | 0, _ => spinning
  | left + 1, current => do
    if current &&& Mask.sealed ≠ 0 then return .error .sessionEnded
    if current &&& Mask.closing ≠ 0 then return .ok ()
    match ← sessionCompare .close current (current ||| Mask.closing) rounds with
    | .ok () => return .ok ()
    | .error now => closingLoop rounds left now

/-- `SessionIngress::accept` of a quit. -/
def acceptQuit (sequence : Nat) (snapshot : Word) (rounds : Nat) :
    P (Except SessionError SessionRequest) := do
  let close ← act (.initClose { sequence, generation := epoch snapshot })
  match ← closingLoop rounds rounds snapshot with
  | .error error => return .error error
  | .ok () =>
    let scope ← act (.newScope
      { request := sequence, snapshot := snapshot ||| Mask.closing, kind := .closeCleanup })
    return .ok
      { kind := .quit, sequence, snapshot, target := 0, close := some close.sequence, scope }

/-- The target of a command: the approval or the undo that waits for it. -/
def loadTarget (kind : CommandKind) : P Nat :=
  match kind with
  | .approve | .undo => act (.loadTarget kind)
  | _ => return 0

/-- `SessionIngress::accept`, from the word that it reads at first. -/
def acceptAt (kind : CommandKind) (sequence rounds : Nat) (snapshot : Word) :
    P (Except SessionError SessionRequest) := do
  if snapshot &&& Mask.sealed ≠ 0 then return .error .sessionEnded
  if sequence = 2 ^ 64 - 1 then
    fail rounds
    return .error .exhausted
  if !(← act (.takeSequence sequence)) then return .error .sequence
  if kind = .lift then return .error .unavailable
  let target ← loadTarget kind
  if kind = .quit then return ← acceptQuit sequence snapshot rounds
  if kind ≠ .status ∧ kind ≠ .evidence ∧
      snapshot &&& (Mask.closing ||| Mask.failed ||| Mask.emergency) ≠ 0 then
    return .error .restricted
  if (kind = .approve ∨ kind = .undo) ∧ target = 0 then return .error .noTarget
  let scope ← act (.newScope
    { request := sequence, snapshot
      kind := if kind = .undo ∨ kind = .cleanup then .restoration else .work })
  return .ok { kind, sequence, snapshot, target, close := none, scope }

/-- `SessionIngress::accept`. -/
def accept (kind : CommandKind) (sequence rounds : Nat) :
    P (Except SessionError SessionRequest) := do
  acceptAt kind sequence rounds (← sessionWord)

/-- What the snapshot of a scope has to be. -/
def RequestScope.fits (scope : RequestScope) : Bool :=
  (scope.snapshot &&& (Mask.failed ||| Mask.sealed ||| Mask.emergency) == 0) &&
    match scope.kind with
    | .bootstrap => scope.snapshot &&& (Mask.ready ||| Mask.closing ||| 7) == 0
    | .work => scope.snapshot &&& (Mask.ready ||| Mask.closing ||| 7) == Mask.ready
    | .restoration => scope.snapshot &&& (Mask.ready ||| Mask.closing) == Mask.ready
    | .closeCleanup =>
      scope.snapshot &&& (Mask.ready ||| Mask.closing) == Mask.ready ||| Mask.closing

/-- `RequestScope::eligible`. -/
def eligible (number : Nat) (scope : RequestScope) : P Bool := do
  let ended ← act (.ask (.scopeOver number))
  return !ended && scope.fits

/-- What the word has to be for a scope. -/
def RequestScope.same (scope : RequestScope) (word : Word) : Bool :=
  match scope.kind with
  | .closeCleanup => (word &&& epochMask == scope.snapshot &&& epochMask) &&
      (word &&& (Mask.closing ||| Mask.failed ||| Mask.sealed ||| Mask.emergency) == Mask.closing)
  | _ => word == scope.snapshot

/-- `RequestScope::live`. -/
def live (number : Nat) (scope : RequestScope) (word : Word) : P Bool := do
  if scope.same word then eligible number scope else return false

/-- The outcome of an admission. -/
inductive Admission where
  | admitted
  | halted
  | capacity
  deriving DecidableEq

/-- The last step of an admission, at a word that was found. -/
def admitAt (number : Nat) (scope : RequestScope) (expected : Word) (rounds : Nat) :
    P Admission := do
  match ← sessionCompare (.admission number scope) expected expected rounds with
  | .ok () => return .admitted
  | .error _ => return .halted

/-- `RequestScope::admit`. -/
def admitScope (number : Nat) (scope : RequestScope) (rounds : Nat) : P Admission := do
  if !(← eligible number scope) then return .halted
  if !(← act (.takeStep number)) then
    failSession rounds
    return .capacity
  if scope.kind = .closeCleanup then
    let current ← sessionWord
    if !(← live number scope current) then return .halted
    admitAt number scope current rounds
  else admitAt number scope scope.snapshot rounds

/-! ## Producers -/

/-- The rest of `register`, under the lock. -/
def registerLocked (kind : ProducerKind) (settlement : Bool) (rounds : Nat) :
    P (Except SessionError Producer) := do
  let word ← sessionWord
  if word &&& Mask.sealed ≠ 0 then return .error .sessionEnded
  if !settlement ∧ kind ≠ .stopWorker ∧ (word &&& Mask.closing ≠ 0 ∨
      word &&& Mask.failed ≠ 0 ∧ kind ≠ .observation) then return .error .restricted
  let producers ← act .readProducers
  match producers.slots.findIdx? fun slot => !slot.live && !slot.lost with
  | none => return .error .exhausted
  | some index =>
    if 2 ^ 64 ≤ producers.next + 1 then
      fail rounds
      return .error .exhausted
    match ← sessionCompare .register word word rounds with
    | .error _ => return .error .restricted
    | .ok () =>
      let generation := producers.next + 1
      act (.writeProducers
        { next := generation
          slots := producers.slots.set index { generation, live := true, lost := false } })
      return .ok { index, generation }

/-- `SessionIngress::register`. -/
def register (kind : ProducerKind) (settlement : Bool) (rounds : Nat) :
    P (Except SessionError Producer) := do
  if !(← act .lock) then
    fail rounds
    return .error .restricted
  let result ← registerLocked kind settlement rounds
  act .unlock
  return result

/-- `Producer::drop`, of a producer that was not joined. -/
def dropProducer (producer : Producer) (rounds : Nat) : P Unit := do
  fail rounds
  if ← act .lock then
    let producers ← act .readProducers
    let slot := producers.slots.getD producer.index {}
    if slot.generation = producer.generation then
      act (.writeProducers
        { producers with slots := producers.slots.set producer.index { slot with lost := true } })
    act .unlock

/-- `Producer::joined`, with the drop at its end. -/
def joined (producer : Producer) (rounds : Nat) : P Unit := do
  if ← act .lock then
    let producers ← act .readProducers
    let slot := producers.slots.getD producer.index {}
    let found := slot.live && !slot.lost && slot.generation == producer.generation
    if found then
      act (.writeProducers
        { producers with slots := producers.slots.set producer.index { slot with live := false } })
    act .unlock
    if !found then dropProducer producer rounds
  else
    fail rounds
    dropProducer producer rounds

/-- The end of `finish_bootstrap`, under the lock. -/
def readyLocked (rounds : Nat) : P (Except SessionError Unit) := do
  if !(← act (.ask .modelReady)) then return .error .restricted
  match ← sessionCompare .ready 0 Mask.ready rounds with
  | .ok () => return .ok ()
  | .error _ => return .error .restricted

/-- `HostSession::finish_bootstrap`: its reports are questions. A startup report that is not ready
fails the session when it is made, by a call of `fail`. -/
def finishBootstrap (rounds : Nat) : P (Except SessionError Unit) := do
  if !(← act (.ask .startupReady)) then return .error .unavailable
  if !(← act (.ask .bootstrapDone)) then return .error .restricted
  if !(← act .tryLock) then return .error .unavailable
  let result ← readyLocked rounds
  act .unlock
  return result

/-! ## Stops -/

/-- `Stops::slot`: whether an event is in the slot that it names. -/
def findSlot (event : IngressEvent) : P Bool := do
  if (← act .loadNext) ≤ event.index then return false
  if capacity ≤ event.index then return false
  return (← act (.loadGeneration event.index)) == event.generation

/-- `Worker::drop`. -/
def dropWorker (index : Nat) (finished : Bool) (rounds : Nat) : P Unit := do
  if !finished then
    act (.storePhase index .uncertain)
    fail rounds
  act .dropWorker

/-- What a worker does with the answer of the native stop. -/
def recordReceipt (event : IngressEvent) (native : NativeStop) (rounds : Nat) :
    P (Except SessionError StopReceipt) := do
  let (kernelStopped, brokerStopped) ← act .stopSnapshot
  let receipt : StopReceipt := { event, kernelStopped, brokerStopped, native }
  if !(← act (.setReceipt event.index receipt)) then
    dropWorker event.index false rounds
    return .error .restricted
  act (.storePhase event.index .finished)
  if !native.ownershipEstablished then fail rounds
  dropWorker event.index true rounds
  return .ok receipt

/-- `HostSession::record_stop`; `none` if the native stop unwinds. -/
def recordStop (event : IngressEvent) (rounds : Nat) :
    P (Option (Except SessionError StopReceipt)) := do
  if (← sessionWord) &&& Mask.sealed ≠ 0 then return some (.error .sessionEnded)
  if !(← findSlot event) then return some (.error .restricted)
  if (← act (.loadPhase event.index)) = .finished then
    match ← act (.getReceipt event.index) with
    | some receipt => return some (.ok receipt)
    | none => return some (.error .restricted)
  if (← act (.loadPhase event.index)) ≠ .pending then return some (.error .unavailable)
  if !(← act .takeWorker) then return some (.error (.backend "stop_workers_full"))
  if !(← act (.exchangePhase event.index .pending .inFlight)) then
    act .dropWorker
    return some (.error .unavailable)
  match ← act .nativeStop with
  | .gives native => return some (← recordReceipt event native rounds)
  | _ =>
    dropWorker event.index false rounds
    return none

/-- `HostSession::stop_spawn_failed`. -/
def stopSpawnFailed (event : IngressEvent) (rounds : Nat) : P (Except SessionError Unit) := do
  if (← sessionWord) &&& Mask.sealed ≠ 0 then return .error .sessionEnded
  if !(← findSlot event) then return .error .restricted
  if !(← act (.exchangePhase event.index .pending .failedWorker)) then return .error .restricted
  fail rounds
  return .ok ()

/-- `StopPhase`, as `stop_events` observes it. -/
inductive StopPhase where
  | pending
  | inFlight
  | finished (receipt : StopReceipt)
  | uncertain
  | failed
  deriving DecidableEq

/-- The observation of a slot that is not empty. -/
def observeSlot (index : Nat) (phase : Phase) : P (Except SessionError StopPhase) := do
  match phase with
  | .pending => return .ok .pending
  | .inFlight => return .ok .inFlight
  | .finished =>
    match ← act (.getReceipt index) with
    | some receipt => return .ok (.finished receipt)
    | none => return .error .restricted
  | .failedWorker => return .ok .failed
  | _ => return .ok .uncertain

/-- The loop of `stop_events` over `left` slots from `index` on. The order by generation does not
matter to the counts. -/
def stopEvents (index : Nat) : Nat → P (Except SessionError (List StopPhase))
  | 0 => return .ok []
  | left + 1 => do
    let phase ← act (.loadPhase index)
    if phase = .empty then return ← stopEvents (index + 1) left
    match ← observeSlot index phase with
    | .error error => return .error error
    | .ok observed =>
      let _ ← act (.loadGeneration index)
      match ← stopEvents (index + 1) left with
      | .error error => return .error error
      | .ok rest => return .ok (observed :: rest)

/-- `StopObligations`. -/
structure StopObligations where
  received : Nat := 0
  pending : Nat := 0
  inFlight : Nat := 0
  recorded : Nat := 0
  owed : Nat := 0
  uncertain : Nat := 0
  failed : Nat := 0
  overflowed : Bool := false
  deriving DecidableEq

/-- The counts with one more observation. -/
def StopObligations.count (o : StopObligations) : StopPhase → StopObligations
  | .pending => { o with received := o.received + 1, pending := o.pending + 1 }
  | .inFlight => { o with received := o.received + 1, inFlight := o.inFlight + 1 }
  | .uncertain => { o with received := o.received + 1, uncertain := o.uncertain + 1 }
  | .failed => { o with received := o.received + 1, failed := o.failed + 1 }
  | .finished receipt =>
    if receipt.recorded then { o with received := o.received + 1, recorded := o.recorded + 1 }
    else if !receipt.native.ownershipEstablished ∨ receipt.native.record = .uncertain ∨
        0 < receipt.native.uncertain then
      { o with received := o.received + 1, uncertain := o.uncertain + 1 }
    else if !receipt.kernelStopped ∨ !receipt.brokerStopped then
      { o with received := o.received + 1, failed := o.failed + 1 }
    else { o with received := o.received + 1, owed := o.owed + 1 }

/-- `HostSession::stop_obligations`. -/
def stopObligations : P (Except SessionError StopObligations) := do
  let overflowed ← act .loadOverflowed
  let _ ← act .loadNext
  let slots ← act .loadNext
  match ← stopEvents 0 slots with
  | .error error => return .error error
  | .ok observed =>
    let counts := observed.foldl StopObligations.count { overflowed }
    let reserved ← act .loadNext
    return .ok { counts with
      uncertain := counts.uncertain + (reserved - counts.received), received := reserved }

/-! ## Closing -/

/-- `HostSession::close_request`. -/
def closeRequest (request : SessionRequest) : P Bool := do
  if request.kind ≠ .quit then return false
  if request.close ≠ (← act .getClose).map CloseIdentity.sequence then return false
  if ← act (.ask .deadlinePassed) then return false
  return (← sessionWord) &&& (Mask.closing ||| Mask.sealed) == Mask.closing

/-- `HostSession::close_operation`. -/
def closeOperation (request : SessionRequest) (rounds : Nat) :
    P (Except SessionError Producer) := do
  if !(← closeRequest request) then return .error .restricted
  match ← register .work true rounds with
  | .error error => return .error error
  | .ok operation =>
    if !(← closeRequest request) then
      joined operation rounds
      return .error .restricted
    return .ok operation

/-- `HostSession::settle_close_authority`; `none` if the native call unwinds. -/
def settleCloseAuthority (request : SessionRequest) (rounds : Nat) :
    P (Option (Except SessionError Unit)) := do
  match ← closeOperation request rounds with
  | .error error => return some (.error error)
  | .ok operation =>
    match ← act .closeAuthority with
    | .gives () =>
      act .storeAuthorityClosed
      joined operation rounds
      return some (.ok ())
    | .refuses =>
      fail rounds
      joined operation rounds
      return some (.error (.backend []))
    | .panics =>
      dropProducer operation rounds
      return none

/-- What `seal_close` finds under the lock. -/
inductive Finding where
  | sealed
  | refused (error : SessionError)
  | panicked
  deriving DecidableEq

/-- Go on with the value of a reply, if there is one. -/
def onReply {α : Type} (reply : Reply α) (refusal : P Finding) (next : α → P Finding) : P Finding :=
  match reply with
  | .gives value => next value
  | .refuses => refusal
  | .panics => return .panicked

/-- The last part of `seal_close`: the final obligations are reserved, then the seal is set. -/
def sealWord (word : Word) (lines : List Text) (rounds : Nat) : P Finding := do
  match lines.getLast? with
  | none => return .refused .unavailable
  | some head =>
    act .initFinals
    if !(← act (.setHistory lines.length head)) then return .refused .restricted
    if ← act (.ask .deadlinePassed) then return .refused .restricted
    match ← sessionCompare .sealing word (sealNext word) rounds with
    | .ok () => return .sealed
    | .error _ => return .refused .restricted

/-- A refusal that fails the session. -/
def failing (error : SessionError) (rounds : Nat) : P Finding := do
  fail rounds
  return .refused error

/-- The middle part: what other components still owe. -/
def sealObligations (word : Word) (rounds : Nat) : P Finding := do
  onReply (← act .resources) (failing .restricted rounds) fun resources => do
  if resources.unresolved ≠ 0 ∨ resources.uncertain ≠ 0 then return .refused .unavailable
  onReply (← act .inventory) (failing .unavailable rounds) fun entries => do
  if entries.any fun e => !e.discharged || e.inFlight || e.uncertain then
    return .refused .unavailable
  onReply (← act .actions) (return .refused .restricted) fun acknowledged => do
  if acknowledged.any not then return .refused .unavailable
  onReply (← act .haltRecords) (return .refused .unavailable) fun halt => do
  if halt.pending ≠ 0 ∨ halt.owed ≠ 0 ∨ halt.uncertain ≠ 0 ∨ halt.lost ≠ 0 then
    return .refused .unavailable
  onReply (← act .health) (return .refused .unavailable) fun health => do
  if health.latched ∨ health.owed ≠ 0 ∨ health.recoveryRequired ∨ health.unsettled ≠ 0 ∨
      health.uncleanSessions ≠ 0 then return .refused .unavailable
  onReply (← act .history) (return .refused .unavailable) fun report => do
  if report.records = 0 ∨ report.unresolvedMissions ≠ 0 ∨ report.sessionEndRecorded then
    return .refused .unavailable
  onReply (← act .historyLines) (return .refused .unavailable) fun lines =>
    sealWord word lines rounds

/-- The part of `seal_close` under the lock. -/
def sealLocked (rounds : Nat) : P Finding := do
  let word ← sessionWord
  if word &&& (Mask.failed ||| Mask.sealed) ≠ 0 then return .refused .restricted
  if !(← act .loadAuthorityClosed) then return .refused .restricted
  let producers ← act .readProducers
  if producers.slots.any fun slot => slot.live || slot.lost then return .refused .unavailable
  if !(← act (.ask .modelQuiescent)) then return .refused .unavailable
  match ← stopObligations with
  | .error error => return .refused error
  | .ok stop =>
    if stop.received ≠ stop.recorded ∨ stop.received ≠ epoch word ∨ stop.overflowed then
      return .refused .unavailable
    if (← act .loadActive) ≠ 0 then return .refused .unavailable
    sealObligations word rounds

/-- `HostSession::seal_close`; `none` if it unwinds. -/
def sealClose (request : SessionRequest) (rounds : Nat) :
    P (Option (Except SessionError Unit)) := do
  if !(← closeRequest request) then return some (.error .restricted)
  if !(← act (.ask .startupReady)) then return some (.error .unavailable)
  if !(← act .lock) then return some (.error .restricted)
  match ← sealLocked rounds with
  | .sealed =>
    act .unlock
    return some (.ok ())
  | .refused error =>
    act .unlock
    return some (.error error)
  | .panicked =>
    act .poison
    return none

/-! ## After the seal -/

/-- `CloseSeal::live`. -/
def sealLive : P Bool := do
  if ← act (.ask .deadlinePassed) then return false
  return (← sessionWord) &&& (Mask.sealed ||| Mask.ready ||| Mask.failed) == Mask.sealed

/-- `CloseSeal::begin_mother_end`. -/
def beginMotherEnd : P (Except SessionError Unit) := do
  if !(← sealLive) then return .error .restricted
  if (← act (.exchangeFinal .mother .pending .unknown)) = some true then return .ok ()
  return .error .restricted

/-- `HostSession::observe_mother_end`. -/
def observeMotherEnd : P (Except SessionError Unit) := do
  if !(← sealLive) then return .error .restricted
  if (← act (.loadFinal .mother)) ≠ some .unknown then return .error .restricted
  match ← act .getHistory with
  | none => return .error .restricted
  | some (records, head) =>
    if !(← act (.verifyEnd records head)) then return .error .unavailable
    act (.storeFinal .mother .recorded)
    return .ok ()

/-- `HostSession::close_primary`. -/
def closePrimary : P (Except SessionError Unit) := do
  if !(← sealLive) then return .error .restricted
  if (← act (.loadFinal .mother)) ≠ some .recorded then return .error .restricted
  if (← act (.exchangeFinal .primary .pending .unknown)) ≠ some true then
    return .error .restricted
  match ← act .closeSession with
  | .recorded _ =>
    act (.storeFinal .primary .recorded)
    return .ok ()
  | .owed =>
    act (.storeFinal .primary .failed)
    return .error .unavailable
  | .uncertain => return .error .unavailable

/-- The loop of `finish`. -/
def finishLoop (success : Bool) (rounds : Nat) : Nat → P Unit
  | 0 => spinning
  | left + 1 => do
    let word ← sessionWord
    match ← sessionCompare (.finish success) word (finishNext success word) rounds with
    | .ok () => return ()
    | .error _ => finishLoop success rounds left

/-- `finish`. -/
def finish (success : Bool) (rounds : Nat) : P Unit := finishLoop success rounds rounds

/-- Whether all went well before the delivery. -/
def deliverable : P Bool := do
  if !(← sealLive) then return false
  if (← act (.loadFinal .mother)) ≠ some .recorded then return false
  return (← act (.loadFinal .primary)) == some .recorded

/-- `CloseSeal::finish_delivery`. -/
def finishDelivery (rounds : Nat) : P Bool := do
  let success ← deliverable
  act (.storeFinal .delivery (if success then .recorded else .failed))
  finish success rounds
  return success

end NexusOs.HostSession
