import NexusOs.Audit.Trail

/-!
# No event is lost by archiving, unless a write fails

The archived events and those in memory are the appended ones, in order, as long as every archive
write succeeds and is read back: read `archive_is_complete` first. A failed write loses the events
it was to write, which have left the memory by then (`archive_is_not_complete`).
-/

namespace NexusOs.Audit

open Chain Framing Transition Utf8

variable {Value : Type} {c : Codec Value}

/-- The hash of the event is computed from the rest of it. -/
def Codec.Authentic (c : Codec Value) (event : AuditEvent Value) : Prop :=
  c.computeHash event.toCanonicalEventData event.previousHash = some event.hash

variable {l : List (AuditEvent Value)}

theorem verifyEventChain_iff {p : Text} :
    c.verifyEventChain p l = true ↔
      Follows AuditEvent.previousHash AuditEvent.hash p l ∧ ∀ e ∈ l, c.Authentic e := by
  induction l generalizing p with
  | nil => simp [Codec.verifyEventChain, Follows]
  | cons e l ih =>
    simp only [Codec.verifyEventChain, Bool.and_eq_true, decide_eq_true_eq, ih, Follows,
      List.forall_mem_cons]
    tauto

theorem verifyEventChain_append {p : Text} {l' : List (AuditEvent Value)} :
    c.verifyEventChain p (l ++ l') = true ↔ c.verifyEventChain p l = true ∧
      c.verifyEventChain (head AuditEvent.hash p l) l' = true := by
  simp only [verifyEventChain_iff, follows_append, List.forall_mem_append]
  tauto

/-! ## Segments -/

/-- Decoding reads back what was encoded of the events. -/
def Codec.ReadsBack (c : Codec Value) (events : List (AuditEvent Value)) : Prop :=
  ∀ l ⊆ events, c.decode (c.encode l) = .ok l

/-- The events in a file, if it is there and decodes. -/
def Codec.eventsIn (c : Codec Value) (file : Option Bytes) : List (AuditEvent Value) :=
  (file.bind fun bytes => (c.decode bytes).toOption).getD []

/-- The events of archived segments. -/
def archivedIn (c : Codec Value) (files : Nat → Option Bytes) (segments : List ArchivedSegment) :
    List (AuditEvent Value) :=
  segments.flatMap fun segment => c.eventsIn (files segment.segmentId)

/-- Each segment describes the events of its file, which follow those of the segments before. -/
inductive Sealed (c : Codec Value) (files : Nat → Option Bytes) :
    Text → List ArchivedSegment → List (AuditEvent Value) → Prop
  | nil (p : Text) : Sealed c files p [] []
  | cons {p : Text} {segments : List ArchivedSegment} {events : List (AuditEvent Value)} (id : Nat)
      (first : AuditEvent Value) (rest : List (AuditEvent Value))
      (hfile : files id = some (c.encode (first :: rest)))
      (hchain : c.verifyEventChain p (first :: rest) = true)
      (hsealed : Sealed c files (head AuditEvent.hash p (first :: rest)) segments events) :
      Sealed c files p (segmentOf c id first (first :: rest) :: segments) (first :: rest ++ events)

variable {files files' : Nat → Option Bytes} {p : Text} {segments : List ArchivedSegment}
  {events : List (AuditEvent Value)}

/-- The last hash of a segment is that of its events. -/
theorem lastEventHash_segmentOf (id : Nat) {first : AuditEvent Value}
    {rest : List (AuditEvent Value)} :
    (segmentOf c id first (first :: rest)).lastEventHash =
      head AuditEvent.hash p (first :: rest) := by
  rw [segmentOf, head_cons, head_cons]

/-- A segment is sealed after the others if its events follow theirs. -/
theorem Sealed.snoc (h : Sealed c files p segments events) {id : Nat} {first : AuditEvent Value}
    {rest : List (AuditEvent Value)} (hfile : files id = some (c.encode (first :: rest)))
    (hchain : c.verifyEventChain (head ArchivedSegment.lastEventHash p segments)
      (first :: rest) = true) :
    Sealed c files p (segments ++ [segmentOf c id first (first :: rest)])
      (events ++ first :: rest) := by
  induction h with
  | nil p =>
    have hone := Sealed.cons id first rest hfile hchain (.nil _)
    rwa [List.append_nil] at hone
  | cons id' first' rest' hfile' hchain' _ ih =>
    rw [head_cons, lastEventHash_segmentOf] at hchain
    rw [List.append_assoc]
    exact .cons id' first' rest' hfile' hchain' (ih hchain)

theorem Sealed.congr (h : Sealed c files p segments events)
    (hfiles : ∀ s ∈ segments, files' s.segmentId = files s.segmentId) :
    Sealed c files' p segments events := by
  induction h with
  | nil p => exact .nil p
  | cons id first rest hfile hchain _ ih =>
    rw [List.forall_mem_cons] at hfiles
    exact .cons id first rest (hfiles.1.trans hfile) hchain (ih hfiles.2)

theorem Codec.ReadsBack.mono (hcodec : c.ReadsBack events) (hsub : l ⊆ events) : c.ReadsBack l :=
  fun l' hl' => hcodec l' (List.Subset.trans hl' hsub)

theorem Codec.ReadsBack.eventsIn (hcodec : c.ReadsBack events) (hsub : l ⊆ events) :
    c.eventsIn (some (c.encode l)) = l := by
  simp [Codec.eventsIn, hcodec l hsub, Except.toOption]

/-- The files decode to the events that they were made of. -/
theorem Sealed.archivedIn (h : Sealed c files p segments events) (hcodec : c.ReadsBack events) :
    archivedIn c files segments = events := by
  induction h with
  | nil => rfl
  | cons id first rest hfile _ _ ih =>
    have hrest := ih (hcodec.mono (List.subset_append_right _ _))
    have hfirst : c.eventsIn (files id) = first :: rest := by
      rw [hfile, hcodec.eventsIn (List.subset_append_left _ _)]
    rw [Audit.archivedIn, List.flatMap_cons, ← Audit.archivedIn, hrest, segmentOf, hfirst]

/-! ## Complete trails -/

/-- The appended events are in the archive and in memory, and the trail knows it. -/
structure Complete (c : Codec Value) (config : RetentionConfig) (w : World Value)
    (buffer : RetentionBuffer) (appended : List (AuditEvent Value)) : Prop where
  retention : w.trail.retention = some buffer
  configured : buffer.config = config
  sealed : ∃ archived, Sealed c w.files genesisHash buffer.segments archived ∧
    archived ++ w.trail.events = appended
  ids : ∀ s ∈ buffer.segments, s.segmentId < buffer.nextSegmentId
  chain : c.verifyEventChain buffer.lastHash w.trail.events = true
  total : buffer.totalEventCount = appended.length

namespace Complete

variable {config : RetentionConfig} {w : World Value} {buffer : RetentionBuffer}
  {appended : List (AuditEvent Value)} {data : CanonicalEventData Value} {write : Write}

section

variable (h : Complete c config w buffer appended)

include h

/-- Archiving, if it succeeds, moves the oldest events into a segment. -/
theorem archive {w' : World Value} (harchive : w.archive c buffer write = (.ok (), w')) :
    w'.trail.events = w.trail.events.drop config.segmentSize ∧
      ∃ buffer', Complete c config w' buffer' appended := by
  obtain rfl := h.configured
  have hsplit := List.take_append_drop buffer.config.segmentSize w.trail.events
  unfold World.archive at harchive
  cases htake : w.trail.events.take buffer.config.segmentSize with
  | nil =>
    rw [htake] at harchive hsplit
    cases harchive
    exact ⟨hsplit.symm, buffer, h⟩
  | cons first rest =>
    rw [htake] at hsplit
    simp only [htake] at harchive
    cases write with
    | failed => cases harchive
    | written =>
    cases harchive
    have hchain := h.chain
    rw [← hsplit, verifyEventChain_append] at hchain
    obtain ⟨archived, hsealed, happended⟩ := h.sealed
    refine ⟨rfl, _, ⟨rfl, rfl, ⟨archived ++ (first :: rest), ?_, ?_⟩, ?_, ?_, h.total⟩⟩
    · -- the file of the new segment is none of those before
      have hfiles : ∀ s ∈ buffer.segments, (if s.segmentId = buffer.nextSegmentId then
          some (c.encode (first :: rest)) else w.files s.segmentId) = w.files s.segmentId :=
        fun s hs => if_neg (Nat.ne_of_lt (h.ids s hs))
      exact (hsealed.congr hfiles).snoc (if_pos rfl) hchain.1
    · rw [List.append_assoc, hsplit]
      exact happended
    · intro s hs
      rcases List.mem_append.mp hs with hs | hs
      · exact Nat.lt_succ_of_lt (h.ids s hs)
      · rw [List.mem_singleton.mp hs]
        exact Nat.lt_succ_self _
    · simpa [RetentionBuffer.lastHash, segmentOf, head_cons] using hchain.2

variable {event : AuditEvent Value}

/-- An event that is pushed follows the events before. -/
theorem push (hevent : w.trail.event c data = some event) :
    Complete c config
      { w with trail := ⟨w.trail.events ++ [event],
        some { buffer with totalEventCount := buffer.totalEventCount + 1 }⟩ }
      { buffer with totalEventCount := buffer.totalEventCount + 1 } (appended ++ [event]) := by
  simp only [AuditTrail.event, AuditTrail.startHash, h.retention] at hevent
  obtain ⟨hash, hhash, rfl⟩ := Option.map_eq_some_iff.mp hevent
  obtain ⟨archived, hsealed, happended⟩ := h.sealed
  refine ⟨rfl, h.configured, ⟨archived, hsealed, ?_⟩, h.ids, ?_, ?_⟩
  · simp only [← List.append_assoc, happended]
  · refine verifyEventChain_append.mpr ⟨h.chain, verifyEventChain_iff.mpr ⟨⟨rfl, trivial⟩, ?_⟩⟩
    rintro e he
    obtain rfl := List.mem_singleton.mp he
    exact hhash
  · simp [h.total]

/-- A successful append keeps the trail complete and its memory bounded. -/
theorem appendEvent (hevent : w.trail.event c data = some event) {poisoned : Bool} {id : Nat}
    {w' : World Value} (happend : w.appendEvent c data write poisoned = (.ok id, w')) :
    (0 < config.segmentSize →
      w'.trail.events.length ≤ max config.maxLiveEvents w.trail.events.length) ∧
    ∃ buffer', Complete c config w' buffer' (appended ++ [event]) := by
  have hpush := h.push hevent
  obtain rfl := h.configured
  simp only [World.appendEvent, hevent, World.retain, h.retention, List.length_append,
    List.length_singleton] at happend
  by_cases hlt : buffer.config.maxLiveEvents < w.trail.events.length + 1
  · rw [if_pos hlt] at happend
    split at happend
    · cases happend
    next harchive =>
    obtain ⟨-, rfl⟩ := Prod.mk.inj happend
    obtain ⟨hevents, hcomplete⟩ := hpush.archive harchive
    refine ⟨fun hsize => ?_, hcomplete⟩
    rw [hevents, List.length_drop, List.length_append, List.length_singleton]
    omega
  · rw [if_neg hlt] at happend
    obtain ⟨-, rfl⟩ := Prod.mk.inj happend
    refine ⟨fun _ => ?_, _, hpush⟩
    rw [List.length_append, List.length_singleton]
    omega

end

theorem archive_written : (w.archive c buffer .written).1 = .ok () := by
  unfold World.archive
  split <;> rfl

/-- An append that can write its segment and lock the batcher succeeds. -/
theorem appendEvent_ok (h : Complete c config w buffer appended)
    (hevent : w.trail.event c data = some event)
    (hwrite : w.trail.archives = true → write = .written) :
    (w.appendEvent c data write false).1 = .ok data.eventId := by
  simp only [World.appendEvent, hevent, World.retain, h.retention, List.length_append,
    List.length_singleton]
  by_cases hlt : buffer.config.maxLiveEvents < w.trail.events.length + 1
  · rw [AuditTrail.archives, h.retention] at hwrite
    obtain rfl := hwrite (decide_eq_true hlt)
    rw [if_pos hlt]
    split
    · next harchive => cases (congrArg Prod.fst harchive).symm.trans archive_written
    · rfl
  · rw [if_neg hlt]
    rfl

end Complete

/-! ## Runs of appends -/

/-- An append, what became of its archive write and of the lock, and its answer. -/
structure Attempt (Value : Type) where
  data : CanonicalEventData Value
  write : Write
  poisoned : Bool
  answer : Except AuditError Nat
  event : Option (AuditEvent Value)

/-- One append; `event` is the event it made. -/
def Step (c : Codec Value) (w : World Value) (a : Attempt Value) (w' : World Value) : Prop :=
  w.appendEvent c a.data a.write a.poisoned = (a.answer, w') ∧ a.event = w.trail.event c a.data

/-- The append can write its segment, if any, and lock the batcher. -/
def Unhindered (w : World Value) (a : Attempt Value) : Prop :=
  (w.trail.archives = true → a.write = .written) ∧ a.poisoned = false

/-- The events whose append returned `Ok`. -/
def appendedBy (attempts : List (Attempt Value)) : List (AuditEvent Value) :=
  attempts.flatMap fun a => if a.answer.isOk then a.event.toList else []

/-- The archived events, in segment order, and then those in memory. -/
def World.sequence (c : Codec Value) (w : World Value) : List (AuditEvent Value) :=
  archivedIn c w.files w.segments ++ w.trail.events

variable {config : RetentionConfig} {w w' : World Value} {buffer : RetentionBuffer}
  {appended : List (AuditEvent Value)} {a : Attempt Value}

/-- An unhindered append keeps the trail complete and its memory bounded. -/
theorem step_complete (hstep : Step c w a w') (hclear : Unhindered w a)
    (h : Complete c config w buffer appended) (hsize : 0 < config.segmentSize) :
    w'.trail.events.length ≤ max config.maxLiveEvents w.trail.events.length ∧
      ∃ buffer', Complete c config w' buffer' (appended ++ appendedBy [a]) := by
  obtain ⟨happend, hevent⟩ := hstep
  cases hmade : w.trail.event c a.data with
  | none =>
    simp only [World.appendEvent, hmade, Prod.mk.injEq] at happend
    obtain ⟨hanswer, rfl⟩ := happend
    refine ⟨Nat.le_max_right _ _, buffer, ?_⟩
    simpa [appendedBy, ← hanswer, Except.toBool] using h
  | some event =>
    have hok := h.appendEvent_ok hmade hclear.1
    rw [← hclear.2, happend] at hok
    have hok : a.answer = .ok a.data.eventId := hok
    rw [hok] at happend
    obtain ⟨hbounded, hcomplete⟩ := h.appendEvent hmade happend
    refine ⟨hbounded hsize, ?_⟩
    rw [hmade] at hevent
    simpa [appendedBy, hok, hevent, Except.toBool] using hcomplete

theorem run_complete {attempts : List (Attempt Value)}
    (hrun : Run (fun w a w' => Step c w a w' ∧ Unhindered w a) w attempts w')
    (h : Complete c config w buffer appended) (hsize : 0 < config.segmentSize) :
    w'.trail.events.length ≤ max config.maxLiveEvents w.trail.events.length ∧
      ∃ buffer', Complete c config w' buffer' (appended ++ appendedBy attempts) := by
  induction hrun generalizing buffer appended with
  | nil => exact ⟨Nat.le_max_right _ _, buffer, by simpa [appendedBy] using h⟩
  | @cons w w'' w' a attempts hstep _ ih =>
    obtain ⟨hbound, buffer', hcomplete⟩ := step_complete hstep.1 hstep.2 h hsize
    obtain ⟨hbound', hrest⟩ := ih hcomplete
    refine ⟨by omega, ?_⟩
    simpa [appendedBy] using hrest

/-- A trail whose events verify is complete when its retention is enabled. -/
theorem complete_enableRetention {t : AuditTrail Value}
    (hchain : c.verifyEventChain genesisHash t.events = true) :
    Complete c config ⟨t.enableRetention config, files⟩
      { config, totalEventCount := t.events.length } t.events :=
  ⟨rfl, rfl, ⟨[], .nil _, rfl⟩, by simp, hchain, rfl⟩

/-- Archive and memory hold the appended events, if the files are read back. -/
theorem Complete.sequence_eq (h : Complete c config w buffer appended)
    (hcodec : c.ReadsBack appended) : w.sequence c = appended := by
  obtain ⟨archived, hsealed, rfl⟩ := h.sealed
  have harchived := hsealed.archivedIn (hcodec.mono (List.subset_append_left _ _))
  simp [World.sequence, World.segments, h.retention, harchived]

/-- In every run of appends that can write their segments and lock the batcher, on a trail whose
retention was enabled when its events verified: archive and memory hold the events of then and those
whose append returned `Ok`, in order; an `Err` does not change them; the trail verifies, counts
them, and holds no more in memory than it may or held then. -/
theorem archive_is_complete {config : RetentionConfig} (hsize : 0 < config.segmentSize)
    {t : AuditTrail Value} (hchain : c.verifyEventChain genesisHash t.events = true)
    {attempts : List (Attempt Value)} (hcodec : c.ReadsBack (t.events ++ appendedBy attempts))
    (hrun : Run (fun w a w' => Step c w a w' ∧ Unhindered w a)
      ⟨t.enableRetention config, files⟩ attempts w) :
    w.sequence c = t.events ++ appendedBy attempts ∧ w.trail.verifyIntegrity c = true ∧
      w.trail.totalEventCount = (w.sequence c).length ∧
      w.trail.events.length ≤ max config.maxLiveEvents t.events.length ∧
      ∀ a w', Step c w a w' → Unhindered w a → a.answer.isOk = false →
        w'.sequence c = w.sequence c := by
  obtain ⟨hbound, buffer, h⟩ := run_complete hrun (complete_enableRetention hchain) hsize
  have hsequence := h.sequence_eq hcodec
  refine ⟨hsequence, ?_, ?_, hbound, ?_⟩
  · simpa [AuditTrail.verifyIntegrity, AuditTrail.startHash, h.retention] using h.chain
  · rw [hsequence, AuditTrail.totalEventCount, h.retention]
    exact h.total
  intro a w' hstep hclear herr
  obtain ⟨-, buffer', h'⟩ := step_complete hstep hclear h hsize
  have hnone : appendedBy [a] = [] := by simp [appendedBy, herr]
  rw [hnone, List.append_nil] at h'
  rw [h'.sequence_eq hcodec, hsequence]

/-- Every event serializes. -/
def codecOf (sha : Bytes → Bytes) (json : CanonicalEventData Nat → Bytes)
    (encode : List (AuditEvent Nat) → Bytes)
    (decode : Bytes → Except ArchiveError (List (AuditEvent Nat))) : Codec Nat :=
  ⟨sha, fun data => some (json data), encode, decode⟩

/-- An append of a payload to a trail, with its outcome. -/
def sampleAttempt (c : Codec Nat) (w : World Nat) (payload : Nat) (write : Write) : Attempt Nat :=
  let data : CanonicalEventData Nat := ⟨payload, 0, 0, .toolCall, payload⟩
  ⟨data, write, false, (w.appendEvent c data write false).1, w.trail.event c data⟩

/-- The world after the append. -/
def sampleAfter (c : Codec Nat) (w : World Nat) (payload : Nat) (write : Write) : World Nat :=
  (w.appendEvent c (sampleAttempt c w payload write).data write false).2

/-- `serde_json` for tool calls, with ids and numbers of one digit. -/
def sampleJson (data : CanonicalEventData Nat) : Bytes :=
  let digit (n : Nat) : Text := [Nat.digitChar n]
  Utf8.encode ("\x7b\"event_id\":\"00000000-0000-0000-0000-00000000000" ++
    digit data.eventId ++ "\",\"timestamp\":" ++ digit data.timestamp ++
    ",\"agent_id\":\"00000000-0000-0000-0000-00000000000" ++ digit data.agentId ++
    "\",\"event_type\":\"ToolCall\",\"payload\":" ++ digit data.payload ++ "\x7d")

/-- SHA-256, by the first byte of the input: of four events, each following the one before, of the
two nodes over the first three, and of their root. -/
def sampleSha256 (input : Bytes) : Bytes :=
  let digest :=
    match input.headD 0 with
    | 48 => 0x3eff29f573b570f8b44d39b334db69b7791869ccc98e757265b8ae18c987834a
    | 51 => 0x93f8327d21e69bbe7b8b908b16b16fff48fea789ef0f8dd06264f579455611da
    | 57 => 0xd6ef5d254fa8b1680ab42f73aaca4b15405a0cfb13f7bd6184057c1aa9bb5837
    | 100 => 0x282d46284c6b36786d9864dac1bae92b56a9a86221ab26142b0787f5d9d15a1b
    | 62 => 0x6fedb4b695259629ea5bca96b4980d672190f52b7f86ae1c7f7a9dcd13d8e039
    | 214 => 0x6092e8a0caefb9b500e256f62f75713da0e5637cb62b7ad8186a505f10a84e58
    | _ => 0xe38226e9996bdfb79afcfad30813f8e7e0a89d5066f95da4a9f40ebb9a7fe572
  beBytes 32 digest

/-- The four events. -/
def sampleEvents : List (AuditEvent Nat) :=
  let c := codecOf sampleSha256 sampleJson (fun _ => []) fun _ => .ok []
  ([1, 2, 3, 4].foldl (fun w payload => sampleAfter c w payload .written) ⟨{}, fun _ => none⟩)
    |>.trail.events

/-- SHA-256 and `serde_json` on the four events, with files that name events by their ids. -/
def sampleCodec : Codec Nat :=
  codecOf sampleSha256 sampleJson (List.map fun event => UInt8.ofNat event.eventId) fun file =>
    .ok (file.filterMap fun id => sampleEvents.find? (·.eventId = id.toNat))

theorem sampleCodec_readsBack : sampleCodec.ReadsBack sampleEvents := by
  intro l hl
  have hfind : ∀ event ∈ sampleEvents, sampleEvents.find?
      (·.eventId = (UInt8.ofNat event.eventId).toNat) = some event := by decide +kernel
  refine congrArg Except.ok ((List.filterMap_map).trans ?_)
  exact (List.filterMap_congr fun event hevent => hfind event (hl hevent)).trans List.filterMap_some

/-- A trail with the first two events, which may hold three from now on. -/
def sampleWorld : World Nat :=
  ⟨AuditTrail.enableRetention { events := sampleEvents.take 2 } ⟨3, 3⟩, fun _ => none⟩

/-- The appends of the other two, the second of which archives three events. -/
def sampleAttempts : List (Attempt Nat) :=
  [sampleAttempt sampleCodec sampleWorld 3 .written,
    sampleAttempt sampleCodec (sampleAfter sampleCodec sampleWorld 3 .written) 4 .written]

/-- The trail and its archive after the appends. -/
def sampleArchived : World Nat :=
  sampleAfter sampleCodec (sampleAfter sampleCodec sampleWorld 3 .written) 4 .written

theorem archive_is_complete_of_sample :
    sampleArchived.segments.length = 1 ∧ sampleArchived.trail.events.length = 1 ∧
      sampleArchived.sequence sampleCodec = sampleEvents := by
  have hrun : Run (fun w a w' => Step sampleCodec w a w' ∧ Unhindered w a) sampleWorld
      sampleAttempts sampleArchived :=
    .cons ⟨⟨rfl, rfl⟩, fun _ => rfl, rfl⟩ (.single ⟨⟨rfl, rfl⟩, fun _ => rfl, rfl⟩)
  have hevents : sampleEvents.take 2 ++ appendedBy sampleAttempts = sampleEvents := by
    decide +kernel
  have hcomplete := archive_is_complete (t := { events := sampleEvents.take 2 }) (by decide)
    (by decide +kernel) (hevents ▸ sampleCodec_readsBack) hrun
  exact ⟨by decide +kernel, by decide +kernel, hcomplete.1.trans hevents⟩

/-- The write for the second append fails: it returns `Err`, and the first event, whose append
returned `Ok`, is neither in the archive nor in memory. -/
theorem archive_is_not_complete :
    ¬ ∃ sha json encode decode, ∀ (config : RetentionConfig) (attempts : List (Attempt Nat))
      (w : World Nat), 0 < config.segmentSize →
        Run (Step (codecOf sha json encode decode))
          ⟨AuditTrail.enableRetention {} config, fun _ => none⟩ attempts w →
        w.sequence (codecOf sha json encode decode) = appendedBy attempts := by
  rintro ⟨sha, json, encode, decode, h⟩
  let c := codecOf sha json encode decode
  let new : World Nat := ⟨.enableRetention {} ⟨1, 1⟩, fun _ => none⟩
  have hrun : Run (Step c) new
      [sampleAttempt c new 1 .written,
        sampleAttempt c (sampleAfter c new 1 .written) 2 (.failed none)]
      (sampleAfter c (sampleAfter c new 1 .written) 2 (.failed none)) :=
    .cons ⟨rfl, rfl⟩ (.single ⟨rfl, rfl⟩)
  have hpayloads : [2] = [1] :=
    congrArg (List.map fun e : AuditEvent Nat => e.payload) (h ⟨1, 1⟩ _ _ (by decide) hrun)
  cases hpayloads

end NexusOs.Audit
