import NexusOs.Audit.Archived

/-!
# Full verification finds every change of the archive

`verify_full_integrity` reads the files of the archive, whatever they have become. A chain has no
hash twice, so the Merkle root of a segment determines the number of its events, and with that all
of them: read `full_verification_detects` first.
-/

namespace NexusOs.Audit

open Chain Framing Merkle Transition Utf8 Option AuditEvent
open List hiding head head_append head_cons

variable {Value : Type} {c : Codec Value} {p : Text}

/-- What the files of the archive decode to, by the ids of their segments. -/
abbrev Load (Value : Type) := Nat → Except ArchiveError (List (AuditEvent Value))

/-- The loop of `verify_full_integrity` over the segments: the hash that the events in memory must
follow, or `none` for `false`; `none` outside if a root panics. -/
def Codec.verifySegments (c : Codec Value) (load : Load Value) :
    Text → List ArchivedSegment → Option (Except ArchiveError (Option Text))
  | expectedPrevious, [] => some (.ok (some expectedPrevious))
  | expectedPrevious, segment :: segments =>
    if segment.chainLinkHash ≠ expectedPrevious then some (.ok none)
    else
      match load segment.segmentId with
      | .error error => some (.error error)
      | .ok events =>
        if c.verifyEventChain expectedPrevious events = false then some (.ok none)
        else
          (merkleRoot c.sha (events.map hash)).bind fun root =>
            if root ≠ some segment.merkleRoot then some (.ok none)
            else verifySegments c load segment.lastEventHash segments

/-- `AuditTrail::verify_full_integrity`. -/
def AuditTrail.verifyFullIntegrity (c : Codec Value) (t : AuditTrail Value) (load : Load Value) :
    Option (Except ArchiveError Bool) :=
  match t.retention with
  | none => some (.ok (t.verifyIntegrity c))
  | some buffer =>
    (c.verifySegments load genesisHash buffer.segments).map (Except.map fun last =>
      match last with
      | none => false
      | some expectedPrevious => c.verifyEventChain expectedPrevious t.events)

/-! ## Hashes that can be trusted -/

/-- What is hashed of an event. -/
def Codec.inputOf (c : Codec Value) (event : AuditEvent Value) : Option Bytes :=
  c.input event.toCanonicalEventData event.previousHash

/-- SHA-256 has no collision among the events and in the trees over the hashes, and no event hashes
to the genesis hash; `serde_json` writes the events differently, and never as nothing. -/
structure Trusted (c : Codec Value) (events : List (AuditEvent Value)) (trees : List (List Text)) :
    Prop where
  length : ∀ x, (c.sha x).length = 32
  free : CollisionFree c.sha (events.filterMap c.inputOf ++ trees.flatMap (treeInputs c.sha))
  genesis : ∀ x ∈ events.filterMap c.inputOf, encodeHex (c.sha x) ≠ genesisHash
  json : ∀ a ∈ events, ∀ b ∈ events,
    c.json a.toCanonicalEventData = c.json b.toCanonicalEventData →
      a.toCanonicalEventData = b.toCanonicalEventData
  nonempty : ∀ a ∈ events, c.json a.toCanonicalEventData ≠ some []

theorem isHash_genesisHash : IsHash genesisHash := by decide

theorem length_encode_of_isHash {text : Text} (h : IsHash text) :
    (Utf8.encode text).length = 64 := by
  rw [length_encode, (decodePairs_of_digits (n := 32) h.1 h.2).1]

namespace Trusted

variable {events l' : List (AuditEvent Value)} {trees : List (List Text)} {a b : AuditEvent Value}
  {l : List (AuditEvent Value)} {root : Text}

/-- The hash of an event is made of the hash before it and its text. -/
theorem exists_input (ha : c.Authentic a) :
    ∃ serialized, c.json a.toCanonicalEventData = some serialized ∧
      c.inputOf a = some (Utf8.encode a.previousHash ++ serialized) ∧
      a.hash = encodeHex (c.sha (Utf8.encode a.previousHash ++ serialized)) := by
  obtain ⟨input, hinput, hhash⟩ := map_eq_some_iff.mp ha
  obtain ⟨serialized, hjson, rfl⟩ := map_eq_some_iff.mp hinput
  exact ⟨serialized, hjson, hinput, hhash.symm⟩

theorem isHash (hsha : ∀ x, (c.sha x).length = 32) (ha : c.Authentic a) : IsHash a.hash := by
  obtain ⟨serialized, -, -, hhash⟩ := exists_input ha
  rw [hhash]
  exact isHash_encodeHex (hsha _)

section

variable (h : Trusted c events trees)

include h

/-- The hash of an event determines it. -/
theorem eq_of_hash (ha : a ∈ events) (hb : b ∈ events)
    (hva : c.Authentic a) (hvb : c.Authentic b) (hpa : IsHash a.previousHash)
    (hpb : IsHash b.previousHash) (heq : a.hash = b.hash) : a = b := by
  obtain ⟨x, hjx, hix, hhx⟩ := exists_input hva
  obtain ⟨y, hjy, hiy, hhy⟩ := exists_input hvb
  have hdigest := encodeHex_inj (hhx.symm.trans (heq.trans hhy))
  have hinput := h.free _ (mem_append_left _ (mem_filterMap.mpr ⟨a, ha, hix⟩)) _
    (mem_append_left _ (mem_filterMap.mpr ⟨b, hb, hiy⟩)) hdigest
  obtain ⟨hprev, rfl⟩ := append_inj hinput
    ((length_encode_of_isHash hpa).trans (length_encode_of_isHash hpb).symm)
  have hdata := h.json a ha b hb (hjx.trans hjy.symm)
  have hprev := encode_injective hprev
  cases a
  cases b
  simp_all

/-- The hashes before the events of a chain are hashes. -/
theorem isHash_previousHash (hp : IsHash p) (hl : c.verifyEventChain p l = true) :
    ∀ a ∈ l, IsHash a.previousHash := by
  obtain ⟨hfollows, hall⟩ := verifyEventChain_iff.mp hl
  exact hfollows.forall_prev hp fun a ha => isHash h.length (hall a ha)

/-- A chain from the beginning has no hash twice. -/
theorem nodup (hl : c.verifyEventChain genesisHash l = true) (hmem : l ⊆ events) :
    (l.map hash).Nodup := by
  obtain ⟨hfollows, hall⟩ := verifyEventChain_iff.mp hl
  have hprev := h.isHash_previousHash isHash_genesisHash hl
  refine (hfollows.nodup ?_ ?_).of_cons
  · intro a ha b hb heq
    rw [h.eq_of_hash (hmem ha) (hmem hb) (hall a ha) (hall b hb) (hprev a ha) (hprev b hb) heq]
  intro a ha
  obtain ⟨serialized, -, hinput, hhash⟩ := exists_input (hall a ha)
  rw [hhash]
  exact h.genesis _ (mem_filterMap.mpr ⟨a, hmem ha, hinput⟩)

/-- The hashes of the events of a chain, as the leaves of their tree. -/
theorem exists_leaves (hall : ∀ a ∈ l, c.Authentic a)
    (hroot : merkleRoot c.sha (l.map hash) = some (some root)) :
    ∃ leaves top, (∀ b ∈ leaves, b.length = 32) ∧
      leaves.map encodeHex = l.map AuditEvent.hash ∧
      treeInputs c.sha (l.map hash) =
        (hashed (innerNode c.sha) (Nat.clog 2 leaves.length) leaves).map (fun p => p.1 ++ p.2) ∧
      level (innerNode c.sha) (Nat.clog 2 leaves.length) leaves = [top] ∧
      root = encodeHex top := by
  have hhashes : ∀ text ∈ l.map AuditEvent.hash, IsHash text := by
    intro text htext
    obtain ⟨a, ha, rfl⟩ := mem_map.mp htext
    exact isHash h.length (hall a ha)
  obtain ⟨leaves, top, hleaves, hlen, htexts, htop, hroot⟩ := merkleRoot_eq_some hhashes hroot
  exact ⟨leaves, top, hlen, htexts, by rw [treeInputs, hleaves], htop, hroot⟩

end

omit c in
theorem treeInputs_subset (sha : Bytes → Bytes) {hs : List Text} (h : hs ∈ trees) :
    treeInputs sha hs ⊆ trees.flatMap (treeInputs sha) :=
  fun _ hx => mem_flatMap.mpr ⟨hs, h, hx⟩

/-- Two pairs in the trees do not have one node. -/
theorem noCollision (h : Trusted c events trees) {s s' : List (Bytes × Bytes)}
    (hs : ∀ p ∈ s, p.1.length = 32 ∧ p.2.length = 32)
    (hs' : ∀ p ∈ s', p.1.length = 32 ∧ p.2.length = 32)
    (hsub : s.map (fun p => p.1 ++ p.2) ⊆ trees.flatMap (treeInputs c.sha))
    (hsub' : s'.map (fun p => p.1 ++ p.2) ⊆ trees.flatMap (treeInputs c.sha)) :
    NoCollision (innerNode c.sha) s s' := by
  refine CollisionFree.noCollision (h.free.mono ?_) hs fun p hp => .inl (hs' p hp).1
  exact fun x hx => mem_append_right _ (append_subset.mpr ⟨hsub, hsub'⟩ hx)

/-- A tree over the hashes of events is not the top of a higher one: an event's hash is made of more
than 64 bytes, a node above the leaves of 64. -/
theorem not_higher (h : Trusted c events trees) (hp : IsHash p) (hl : c.verifyEventChain p l = true)
    (hl' : c.verifyEventChain p l' = true) (hmem : l ⊆ events)
    (htree : l.map hash ∈ trees) (htree' : l'.map hash ∈ trees)
    (hroot : merkleRoot c.sha (l.map hash) = some (some root))
    (hroot' : merkleRoot c.sha (l'.map hash) = some (some root)) :
    ¬ Nat.clog 2 l.length < Nat.clog 2 l'.length := by
  intro hlt
  have hall := (verifyEventChain_iff.mp hl).2
  obtain ⟨leaves, top, hlen, htexts, hinputs, htop, rfl⟩ := h.exists_leaves hall hroot
  obtain ⟨leaves', top', hlen', htexts', hinputs', htop', heq⟩ :=
    h.exists_leaves (verifyEventChain_iff.mp hl').2 hroot'
  obtain rfl := encodeHex_inj heq
  have hcount : leaves.length = l.length := by simpa using congrArg List.length htexts
  have hcount' : leaves'.length = l'.length := by simpa using congrArg List.length htexts'
  obtain ⟨k, hk⟩ := Nat.exists_eq_add_of_lt hlt
  rw [← hcount, ← hcount', Nat.add_assoc, Nat.add_comm] at hk
  rw [hk] at htop' hinputs'
  rw [level_add] at htop'
  -- the first leaf is a node of the higher tree
  have hnocollision : NoCollision (innerNode c.sha)
      (hashed (innerNode c.sha) (.clog 2 leaves.length) leaves)
      (hashed (innerNode c.sha) (.clog 2 leaves.length)
        (level (innerNode c.sha) (k + 1) leaves')) :=
    (h.noCollision (length_of_mem_hashed h.length hlen) (length_of_mem_hashed h.length hlen')
      (hinputs ▸ treeInputs_subset c.sha htree) (hinputs' ▸ treeInputs_subset c.sha htree')).mono
      (.refl _) (hashed_level_subset (k + 1))
  have hhead := head?_eq_of_level hnocollision (htop.trans htop'.symm)
  match leaves, hlen, htexts, htop, hhead with
  | [], _, _, htop, _ => simp [level] at htop
  | leaf :: _, _, htexts, _, hhead =>
    obtain ⟨q, hq, hleaf⟩ := exists_of_mem_level (mem_of_head? hhead.symm)
    -- as the hash of an event, it is made of more bytes than as a node
    obtain ⟨e, he, hhash⟩ := mem_map.mp (htexts ▸ mem_cons_self :
      encodeHex leaf ∈ l.map hash)
    obtain ⟨serialized, hjson, hinput, hhash'⟩ := exists_input (hall e he)
    have hdigest : c.sha (Utf8.encode e.previousHash ++ serialized) = c.sha (q.1 ++ q.2) :=
      (encodeHex_inj (hhash'.symm.trans hhash)).trans hleaf
    have hbytes := h.free _ (mem_append_left _ (mem_filterMap.mpr ⟨e, hmem he, hinput⟩)) _
      (mem_append_right _ (treeInputs_subset c.sha htree' (hinputs' ▸ mem_map_of_mem hq))) hdigest
    have hlength := congrArg List.length hbytes
    have hpair := length_of_mem_hashed h.length hlen' q hq
    rw [length_append, length_append,
      length_encode_of_isHash (h.isHash_previousHash hp hl e he)] at hlength
    refine h.nonempty e (hmem he) (hjson.trans ?_)
    rw [length_eq_zero_iff.mp (by omega : serialized.length = 0)]

/-- Two chains from one hash with one Merkle root are the same events. -/
theorem eq_of_root (h : Trusted c events trees) {before : List (AuditEvent Value)}
    (hl : c.verifyEventChain genesisHash (before ++ l) = true)
    (hl' : c.verifyEventChain genesisHash (before ++ l') = true)
    (hmem : before ++ l ⊆ events) (hmem' : before ++ l' ⊆ events)
    (htree : l.map hash ∈ trees) (htree' : l'.map hash ∈ trees)
    (hroot : merkleRoot c.sha (l.map hash) = some (some root))
    (hroot' : merkleRoot c.sha (l'.map hash) = some (some root)) : l' = l := by
  obtain ⟨hbefore, hchain⟩ := verifyEventChain_append.mp hl
  obtain ⟨-, hchain'⟩ := verifyEventChain_append.mp hl'
  have hp : IsHash (head hash genesisHash before) := by
    rcases mem_cons.mp head_mem with heq | hmem
    · rw [heq]
      exact isHash_genesisHash
    · obtain ⟨a, ha, heq⟩ := mem_map.mp hmem
      rw [← heq]
      exact isHash h.length ((verifyEventChain_iff.mp hbefore).2 a ha)
  have hsub := (append_subset.mp hmem).2
  have hsub' := (append_subset.mp hmem').2
  have hheight : Nat.clog 2 l.length = Nat.clog 2 l'.length := Nat.le_antisymm
    (Nat.not_lt.mp (h.not_higher hp hchain' hchain hsub' htree' htree hroot' hroot))
    (Nat.not_lt.mp (h.not_higher hp hchain hchain' hsub htree htree' hroot hroot'))
  have hall := (verifyEventChain_iff.mp hchain).2
  have hall' := (verifyEventChain_iff.mp hchain').2
  obtain ⟨leaves, top, hlen, htexts, hinputs, htop, rfl⟩ := h.exists_leaves hall hroot
  obtain ⟨leaves', top', hlen', htexts', hinputs', htop', heq⟩ := h.exists_leaves hall' hroot'
  obtain rfl := encodeHex_inj heq
  have hnodup : ∀ {l : List (AuditEvent Value)} {leaves : List Bytes},
      leaves.map encodeHex = l.map hash →
      c.verifyEventChain genesisHash (before ++ l) = true → before ++ l ⊆ events →
      leaves.Nodup := by
    intro l leaves htexts hl hmem
    have := h.nodup hl hmem
    rw [map_append, nodup_append] at this
    exact .of_map encodeHex (htexts ▸ this.2.1)
  have hleaves : leaves' = leaves := by
    have hcount : leaves.length = l.length := by simpa using congrArg List.length htexts
    have hcount' : leaves'.length = l'.length := by simpa using congrArg List.length htexts'
    rw [hcount', ← hheight, ← hcount] at htop' hinputs'
    have hpairs : ∀ p ∈ hashed (innerNode c.sha) (.clog 2 leaves.length) leaves' ++
        hashed (innerNode c.sha) (.clog 2 leaves.length) leaves,
        p.1.length = 32 ∧ p.2.length = 32 := by
      rw [forall_mem_append]
      exact ⟨length_of_mem_hashed h.length hlen', length_of_mem_hashed h.length hlen⟩
    have hinner := append_subset.mpr ⟨hinputs' ▸ treeInputs_subset c.sha htree',
        hinputs ▸ treeInputs_subset c.sha htree⟩
    rw [← map_append] at hinner
    exact level_inj_of_nodup (hnodup htexts' hl' hmem') (hnodup htexts hl hmem)
      (h.noCollision hpairs hpairs hinner hinner) (htop'.trans htop.symm)
  have hhashes : l'.map hash = l.map hash := by
    rw [← htexts, ← htexts', hleaves]
  refine ext_getElem (by simpa using congrArg List.length hhashes) fun i hi hi' => ?_
  have hhash := congrArg (·[i]?) hhashes
  simp only [List.getElem?_map, List.getElem?_eq_getElem hi, List.getElem?_eq_getElem hi',
    map_some, some.injEq] at hhash
  exact h.eq_of_hash (hsub' (getElem_mem hi)) (hsub (getElem_mem hi'))
    (hall' _ (getElem_mem hi)) (hall _ (getElem_mem hi'))
    (h.isHash_previousHash hp hchain' _ (getElem_mem hi))
    (h.isHash_previousHash hp hchain _ (getElem_mem hi')) hhash

end Trusted

/-! ## Every archive -/

variable {events before archived : List (AuditEvent Value)} {trees : List (List Text)}
  {files : Nat → Option Bytes} {load : Load Value}
  {segments : List ArchivedSegment} {last : Text}

/-- A first segment that verifies. -/
theorem verifySegments_cons {segment : ArchivedSegment}
    (h : c.verifySegments load p (segment :: segments) = some (.ok (some last))) :
    ∃ l, load segment.segmentId = .ok l ∧ c.verifyEventChain p l = true ∧
      merkleRoot c.sha (l.map hash) = some (some segment.merkleRoot) ∧
      c.verifySegments load segment.lastEventHash segments = some (.ok (some last)) := by
  simp only [Codec.verifySegments] at h
  split at h
  · cases h
  split at h
  · cases h
  next l hl =>
  split at h
  · cases h
  next hchain =>
  obtain ⟨root, hroot, h⟩ := bind_eq_some_iff.mp h
  split at h
  · cases h
  · next heq =>
    rw [not_not.mp heq] at hroot
    exact ⟨l, hl, Bool.not_eq_false _ ▸ hchain, hroot, h⟩

/-- The root in a segment is the root over its events. -/
theorem merkleRoot_segmentOf {first : AuditEvent Value} {rest : List (AuditEvent Value)}
    (hsha : ∀ x, (c.sha x).length = 32) (hchain : c.verifyEventChain p (first :: rest) = true)
    (id : Nat) : merkleRoot c.sha ((first :: rest).map hash) =
      some (some (segmentOf c id first (first :: rest)).merkleRoot) := by
  obtain ⟨root, hroot⟩ := exists_merkleRoot c.sha
    (show (first :: rest).map hash ≠ [] by simp)
    (forall_mem_map.mpr fun a ha => Trusted.isHash hsha ((verifyEventChain_iff.mp hchain).2 a ha))
  simp only [segmentOf, hroot]
  rfl

/-- Segments that are loaded as they were archived verify. -/
theorem Sealed.verifySegments (hsha : ∀ x, (c.sha x).length = 32)
    (h : Sealed c files p segments events) (hcodec : c.ReadsBack events)
    (hload : ∀ s ∈ segments, ∀ file, files s.segmentId = some file →
      load s.segmentId = c.decode file) :
    c.verifySegments load p segments =
      some (.ok (some (head ArchivedSegment.lastEventHash p segments))) := by
  induction h with
  | nil => rfl
  | cons id first rest hfile hchain _ ih =>
    rw [forall_mem_cons] at hload
    have hloaded := (hload.1 _ hfile).trans (hcodec _ (subset_append_left _ _))
    have hlink : (segmentOf c id first (first :: rest)).chainLinkHash = _ :=
      (verifyEventChain_iff.mp hchain).1.1
    have hrest := ih (hcodec.mono (subset_append_right _ _)) hload.2
    rw [← lastEventHash_segmentOf (c := c) id] at hrest
    simp only [Codec.verifySegments, hlink, hloaded, hchain, merkleRoot_segmentOf hsha hchain id]
    simp [hrest, head_cons]

/-- Segments that verify were loaded as they were archived. -/
theorem eq_of_verifySegments (h : Trusted c events trees) (hcodec : c.ReadsBack archived)
    (hfiles : ∀ s ∈ segments, c.eventsIn (files s.segmentId) ⊆ events ∧
      (c.eventsIn (files s.segmentId)).map hash ∈ trees)
    (hload : ∀ s ∈ segments, ∀ l, load s.segmentId = .ok l →
      l ⊆ events ∧ l.map hash ∈ trees)
    (hbefore : c.verifyEventChain genesisHash before = true) (hmem : before ⊆ events)
    (hsealed : Sealed c files (head hash genesisHash before) segments archived)
    (hverify : c.verifySegments load (head hash genesisHash before) segments =
      some (.ok (some last))) :
    ∀ s ∈ segments, ∃ l, files s.segmentId = some (c.encode l) ∧ load s.segmentId = .ok l := by
  generalize hp : head hash genesisHash before = p at hsealed hverify
  induction hsealed generalizing before with
  | nil => simp
  | cons id first rest hfile hchain _ ih =>
    subst hp
    rw [forall_mem_cons] at hfiles hload
    have hevents : c.eventsIn (files id) = first :: rest := by
      rw [hfile, hcodec.eventsIn (subset_append_left _ _)]
    have hfirst := hevents ▸ hfiles.1
    obtain ⟨l, hl, hchain', hroot, hverify⟩ := verifySegments_cons hverify
    have hsame := merkleRoot_segmentOf h.length hchain id
    have hmem' := append_subset.mpr ⟨hmem, hfirst.1⟩
    have hwhole := verifyEventChain_append.mpr ⟨hbefore, hchain⟩
    have heq : l = first :: rest :=
      h.eq_of_root hwhole (verifyEventChain_append.mpr ⟨hbefore, hchain'⟩) hmem'
        (append_subset.mpr ⟨hmem, (hload.1 l hl).1⟩) hfirst.2 (hload.1 l hl).2 hsame hroot
    rw [forall_mem_cons]
    refine ⟨⟨first :: rest, hfile, heq ▸ hl⟩, ?_⟩
    refine ih (hcodec.mono (subset_append_right _ _)) hfiles.2 hload.2 hwhole hmem' head_append ?_
    rwa [lastEventHash_segmentOf] at hverify

/-- The events of each segment, as archived and as loaded. -/
def World.filed (c : Codec Value) (w : World Value) (load : Load Value) :
    List (List (AuditEvent Value)) :=
  w.segments.flatMap fun s =>
    [c.eventsIn (w.files s.segmentId), (load s.segmentId).toOption.getD []]

variable {w w' : World Value} {buffer : RetentionBuffer}

theorem run_ok_complete {config : RetentionConfig} {attempts : List (Attempt Value)}
    (hrun : Run (Step c) w attempts w') (hok : ∀ a ∈ attempts, a.answer.isOk = true)
    (h : Complete c config w buffer events) :
    ∃ buffer', Complete c config w' buffer' (events ++ appendedBy attempts) := by
  induction hrun generalizing buffer events with
  | nil => exact ⟨buffer, by simpa [appendedBy] using h⟩
  | @cons w w'' w' a attempts hstep _ ih =>
    rw [forall_mem_cons] at hok
    obtain ⟨id, hid⟩ : ∃ id, a.answer = .ok id := by
      cases hanswer : a.answer with
      | error => simp [hanswer, Except.toBool] at hok
      | ok id => exact ⟨id, rfl⟩
    obtain ⟨happend, hmade⟩ := hstep
    rw [hid] at happend
    cases hevent : w.trail.event c a.data with
    | none =>
      simp only [World.appendEvent, hevent] at happend
      cases happend
    | some event =>
      obtain ⟨-, buffer', h'⟩ := h.appendEvent hevent happend
      simpa [appendedBy, hid, hmade, hevent, Except.toBool] using ih hok.2 h'

section

variable {config : RetentionConfig} {t : AuditTrail Value} {attempts : List (Attempt Value)}
  (hchain : c.verifyEventChain genesisHash t.events = true)
  (hcodec : c.ReadsBack (t.events ++ appendedBy attempts))
  (hrun : Run (Step c) ⟨t.enableRetention config, files⟩ attempts w)
  (hok : ∀ a ∈ attempts, a.answer.isOk = true)

include hchain hcodec hrun hok

/-- After successful appends the segments are sealed over events that are read back, and the
events in memory follow. -/
theorem exists_sealed :
    ∃ buffer archived, w.trail.retention = some buffer ∧ w.segments = buffer.segments ∧
      c.ReadsBack archived ∧ Sealed c w.files genesisHash buffer.segments archived ∧
      c.verifyEventChain buffer.lastHash w.trail.events = true := by
  obtain ⟨buffer, h⟩ := run_ok_complete hrun hok (complete_enableRetention hchain)
  obtain ⟨archived, hsealed, happended⟩ := h.sealed
  refine ⟨buffer, archived, h.retention, by simp [World.segments, h.retention], ?_, hsealed,
    h.chain⟩
  exact hcodec.mono (happended ▸ subset_append_left _ _)

/-- If full verification answers `Ok(true)` on a trail of successful appends, every file of the
archive decodes to the events archived in it, whatever the files have become. -/
theorem full_verification_detects
    (htrusted : Trusted c (w.filed c load).flatten
      ((w.filed c load).map (List.map hash)))
    (hverify : w.trail.verifyFullIntegrity c load = some (.ok true)) :
    ∀ s ∈ w.segments, ∃ l, w.files s.segmentId = some (c.encode l) ∧ load s.segmentId = .ok l := by
  obtain ⟨buffer, archived, hretention, hsegments, hcodec, hsealed, -⟩ :=
    exists_sealed hchain hcodec hrun hok
  simp only [AuditTrail.verifyFullIntegrity, hretention] at hverify
  obtain ⟨result, hresult, hverify⟩ := map_eq_some_iff.mp hverify
  cases result with
  | error => cases hverify
  | ok last => cases last with
    | none => cases hverify
    | some last =>
      have hmem : ∀ {l}, l ∈ w.filed c load → l ⊆ (w.filed c load).flatten ∧
          l.map hash ∈ (w.filed c load).map (List.map hash) :=
        fun hl => ⟨fun _ ha => mem_flatten.mpr ⟨_, hl, ha⟩, mem_map_of_mem hl⟩
      have hnil : c.verifyEventChain genesisHash [] = true := rfl
      rw [hsegments]
      refine eq_of_verifySegments htrusted hcodec ?_ ?_ hnil (by simp) hsealed hresult
      · intro s hs
        exact hmem (mem_flatMap.mpr ⟨s, hsegments ▸ hs, by simp⟩)
      · intro s hs l hl
        exact hmem (mem_flatMap.mpr ⟨s, hsegments ▸ hs, by simp [hl, Except.toOption]⟩)

/-- Full verification raises no false alarm: it answers `Ok(true)` on every trail of successful
appends whose files are loaded as they were written. -/
theorem untouched_archive_verifies (hsha : ∀ x, (c.sha x).length = 32)
    (hload : ∀ s ∈ w.segments, ∀ file, w.files s.segmentId = some file →
      load s.segmentId = c.decode file) :
    w.trail.verifyFullIntegrity c load = some (.ok true) := by
  obtain ⟨buffer, archived, hretention, hsegments, hcodec, hsealed, hlive⟩ :=
    exists_sealed hchain hcodec hrun hok
  have hverify := hsealed.verifySegments hsha hcodec (hsegments ▸ hload)
  rw [RetentionBuffer.lastHash] at hlive
  simp [AuditTrail.verifyFullIntegrity, hretention, hverify, hlive, Except.map]

end

theorem sampleAttempts_run : Run (Step sampleCodec) sampleWorld sampleAttempts sampleArchived :=
  .cons ⟨rfl, rfl⟩ (.single ⟨rfl, rfl⟩)

theorem length_sampleSha256 (x : Bytes) : (sampleSha256 x).length = 32 := by simp [sampleSha256]

/-- The archive of a trail that held two events when its retention was enabled. The second append
after that archived three, and their file is as it was written. -/
theorem full_verification_detects_of_sample :
    sampleArchived.segments.length = 1 ∧ ∀ s ∈ sampleArchived.segments, ∃ l,
      sampleArchived.files s.segmentId = some (sampleCodec.encode l) ∧ sampleEvents.take 3 = l := by
  have hdetects := @full_verification_detects Nat sampleCodec (fun _ => none)
    (fun _ => .ok (sampleEvents.take 3)) sampleArchived ⟨3, 3⟩ { events := sampleEvents.take 2 }
    sampleAttempts (by decide +kernel) ?_ sampleAttempts_run (by decide +kernel) ?_ rfl
  · refine ⟨by decide +kernel, fun s hs => ?_⟩
    obtain ⟨l, hfile, hload⟩ := hdetects s hs
    exact ⟨l, hfile, Except.ok.inj hload⟩
  · exact sampleCodec_readsBack.mono (by decide +kernel)
  · exact ⟨length_sampleSha256, by decide +kernel, by decide +kernel, by decide +kernel,
      by decide +kernel⟩

theorem untouched_archive_verifies_of_sample :
    sampleArchived.trail.verifyFullIntegrity sampleCodec (fun id =>
      .ok (sampleCodec.eventsIn (sampleArchived.files id))) = some (.ok true) := by
  have hcodec : sampleCodec.ReadsBack (sampleEvents.take 2 ++ appendedBy sampleAttempts) :=
    sampleCodec_readsBack.mono (by decide +kernel)
  refine untouched_archive_verifies (t := { events := sampleEvents.take 2 }) (by decide +kernel)
    hcodec sampleAttempts_run (by decide +kernel) length_sampleSha256 fun s _ file hfile => ?_
  rw [hfile]
  rfl

end NexusOs.Audit
