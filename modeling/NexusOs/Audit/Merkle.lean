import NexusOs.Lib.Merkle
import NexusOs.Lib.Utf8

/-!
# The Merkle roots of archived segments

`audit/retention.rs`: the root over the hexadecimal hashes of a segment's events, and the check of a
proof against it. A proof does not tell the leaf's level, and an odd leaf counts twice, so a proof
shows membership and a root its leaves only for a known number of them: read `merkle_root_sound`
first.
-/

namespace NexusOs.Audit

open Framing Merkle Utf8 List Option

variable {text root : Text} {n : Nat} {a : Bytes} {hs : List Text}

/-- `char::to_digit(16)`. -/
def hexDigit (c : Char) : Option Nat :=
  if '0'.toNat ≤ c.toNat ∧ c.toNat ≤ '9'.toNat then some (c.toNat - '0'.toNat)
  else if 'a'.toNat ≤ c.toNat ∧ c.toNat ≤ 'f'.toNat then some (c.toNat - 'a'.toNat + 10)
  else if 'A'.toNat ≤ c.toNat ∧ c.toNat ≤ 'F'.toNat then some (c.toNat - 'A'.toNat + 10)
  else none

/-- `u8::from_str_radix` of two characters, the first of which may be a sign. -/
def fromStrRadix (c d : Char) : Option UInt8 :=
  if c = '+' then (hexDigit d).map UInt8.ofNat
  else (hexDigit c).bind fun high => (hexDigit d).map fun low => UInt8.ofNat (16 * high + low)

/-- The slices of two bytes that `hex::decode` reads: `none` if one would cut a character, where the
source panics; an error if one is no number. -/
def decodePairs : Text → Option (Option Bytes)
  | [] => some (some [])
  | [c] => if c.utf8Size ≤ 2 then some none else none
  | c :: d :: rest =>
    if c.utf8Size = 1 then
      if d.utf8Size = 1 then
        match fromStrRadix c d with
        | none => some none
        | some byte => (decodePairs rest).map (Option.map (byte :: ·))
      else none
    else if c.utf8Size = 2 then some none
    else none

/-- `hex::decode`. -/
def decode (text : Text) : Option (Option Bytes) :=
  if size text % 2 = 1 then some none else decodePairs text

/-- `hex::encode`. -/
def encodeHex (bytes : Bytes) : Text := bytes.flatMap hexByte

section

variable (sha : Bytes → Bytes)

/-- `hex_to_bytes`. -/
def hexToBytes (text : Text) : Option Bytes :=
  (decode text).map fun decoded => decoded.getD (sha (Utf8.encode text))

/-- `SHA-256(left || right)`. -/
def innerNode (left right : Bytes) : Bytes := sha (left ++ right)

/-- `merkle_root`; `none` outside if it panics. -/
def merkleRoot (eventHashes : List Text) : Option (Option Text) :=
  (eventHashes.mapM (hexToBytes sha)).map fun level =>
    (climb (innerNode sha) level.length level).head?.map encodeHex

/-- `MerkleProofNode`. -/
structure MerkleProofNode where
  hash : Text
  isLeftSibling : Bool

/-- `verify_merkle_proof`; `none` if it panics. -/
def verifyMerkleProof (leafHash : Text) (proof : List MerkleProofNode) (expectedRoot : Text) :
    Option Bool := do
  let leaf ← hexToBytes sha leafHash
  let path ← proof.mapM fun node => (hexToBytes sha node.hash).map (node.isLeftSibling, ·)
  return encodeHex (ascend (innerNode sha) leaf path) = expectedRoot

/-- `merkle_proof`; `none` outside if it panics. -/
def merkleProof (eventHashes : List Text) (index : Nat) :
    Option (Option (List MerkleProofNode)) := do
  if index ≥ eventHashes.length then return none
  let level ← eventHashes.mapM (hexToBytes sha)
  let path ← pathFrom (innerNode sha) level.length level index
  return some (path.map fun step => ⟨encodeHex step.2, step.1⟩)

end

/-! ## Hashes -/

/-- The digits of lower-case hexadecimal numbers. -/
def lowerHex : List Char :=
  ['0', '1', '2', '3', '4', '5', '6', '7', '8', '9', 'a', 'b', 'c', 'd', 'e', 'f']

/-- A hash: 64 lower-case hexadecimal digits. -/
def IsHash (text : Text) : Prop := text.length = 64 ∧ ∀ c ∈ text, c ∈ lowerHex

/-- Two digits are read as the byte written with them. -/
theorem fromStrRadix_of_mem {c d : Char} (hc : c ∈ lowerHex) (hd : d ∈ lowerHex) :
    c.utf8Size = 1 ∧ d.utf8Size = 1 ∧
      ∃ byte, fromStrRadix c d = some byte ∧ hexByte byte = [c, d] := by
  have hread : (lowerHex.all fun c => lowerHex.all fun d => c.utf8Size = 1 ∧ d.utf8Size = 1 ∧
      (fromStrRadix c d).map hexByte = some [c, d]) = true := by decide
  have hpair := all_eq_true.mp (all_eq_true.mp hread c hc) d hd
  obtain ⟨hsize, hsize', hbyte⟩ := of_decide_eq_true hpair
  obtain ⟨byte, hbyte, hdigits⟩ := map_eq_some_iff.mp hbyte
  exact ⟨hsize, hsize', byte, hbyte, hdigits⟩

theorem decodePairs_of_digits (hlength : text.length = 2 * n) (hdigits : ∀ c ∈ text, c ∈ lowerHex) :
    size text = 2 * n ∧
      ∃ bytes, decodePairs text = some (some bytes) ∧ bytes.length = n ∧
        encodeHex bytes = text := by
  induction n generalizing text with
  | zero =>
    obtain rfl := length_eq_zero_iff.mp hlength
    exact ⟨rfl, [], rfl, rfl, rfl⟩
  | succ n ih =>
    match text with
    | c :: d :: rest =>
      obtain ⟨hsize, bytes, hbytes, hlen, htext⟩ :=
        @ih rest (by simpa [Nat.mul_succ] using hlength) fun x hx => hdigits x (by simp [hx])
      obtain ⟨hc, hd, byte, hread, hbyte⟩ :=
        fromStrRadix_of_mem (hdigits c (by simp)) (hdigits d (by simp))
      refine ⟨?_, byte :: bytes, ?_, by simp [hlen], ?_⟩
      · simp only [size, map_cons, sum_cons] at hsize ⊢
        omega
      · simp only [decodePairs, hc, hd, hread, if_pos, hbytes, map_some]
      · simp only [encodeHex, flatMap_cons, hbyte] at htext ⊢
        rw [htext]
        rfl

/-- A hash is the text of its 32 bytes. -/
theorem IsHash.bytes (sha : Bytes → Bytes) (h : IsHash text) :
    ∃ bytes, hexToBytes sha text = some bytes ∧ bytes.length = 32 ∧ encodeHex bytes = text := by
  obtain ⟨hsize, bytes, hbytes, hlen, htext⟩ := decodePairs_of_digits (n := 32) h.1 h.2
  refine ⟨bytes, ?_, hlen, htext⟩
  simp [hexToBytes, decode, hsize, hbytes]

theorem length_encodeHex (bytes : Bytes) : (encodeHex bytes).length = 2 * bytes.length := by
  simp [encodeHex, hexByte, Nat.mul_comm]

theorem digits_encodeHex (bytes : Bytes) : ∀ c ∈ encodeHex bytes, c ∈ lowerHex := by
  intro c hc
  obtain ⟨byte, -, hc⟩ := mem_flatMap.mp hc
  have hdigit : ∀ n < 16, Nat.digitChar n ∈ lowerHex := by decide
  have hlt := byte.toNat_lt
  simp only [hexByte, mem_cons, not_mem_nil, or_false] at hc
  rcases hc with rfl | rfl
  · exact hdigit _ (by omega)
  · exact hdigit _ (by omega)

theorem isHash_encodeHex {bytes : Bytes} (h : bytes.length = 32) : IsHash (encodeHex bytes) :=
  ⟨by rw [length_encodeHex, h], digits_encodeHex bytes⟩

theorem encodeHex_inj {b : Bytes} (h : encodeHex a = encodeHex b) : a = b := flatMap_hexByte_inj h

/-- What was encoded is decoded again. -/
theorem hexToBytes_encodeHex (sha : Bytes → Bytes) (bytes : Bytes) :
    hexToBytes sha (encodeHex bytes) = some bytes := by
  obtain ⟨hsize, decoded, hread, -, htext⟩ :=
    decodePairs_of_digits (length_encodeHex bytes) (digits_encodeHex bytes)
  simp [hexToBytes, decode, hsize, hread, encodeHex_inj htext]

theorem mapM_eq_some {α β : Type} {f : α → Option β} {l : List α} {l' : List β} :
    l.mapM f = some l' ↔ l.map f = l'.map some := by
  induction l generalizing l' with
  | nil => cases l' <;> simp
  | cons a l ih =>
    simp only [mapM_cons, Option.bind_eq_bind, Option.bind_eq_some_iff, Option.pure_def,
      some.injEq, ih]
    constructor
    · rintro ⟨b, hb, rest, hrest, rfl⟩
      simp [hb, hrest]
    · intro h
      cases l' with
      | nil => cases h
      | cons b rest => exact ⟨b, (List.cons.inj h).1, rest, (List.cons.inj h).2, rfl⟩

/-- The leaves of a list of hashes. -/
theorem mapM_hexToBytes (sha : Bytes → Bytes) (h : ∀ text ∈ hs, IsHash text) :
    ∃ level, hs.mapM (hexToBytes sha) = some level ∧ (∀ bytes ∈ level, bytes.length = 32) ∧
      level.map encodeHex = hs := by
  induction hs with
  | nil => exact ⟨[], rfl, by simp, rfl⟩
  | cons text hs ih =>
    obtain ⟨level, hlevel, hall, htexts⟩ := ih fun t ht => h t (by simp [ht])
    obtain ⟨bytes, hbytes, hlen, htext⟩ := (h text (by simp)).bytes sha
    exact ⟨bytes :: level, by simp [hbytes, hlevel], by simpa [hlen] using hall, by
      simp [htext, htexts]⟩

/-! ## Collisions -/

/-- SHA-256 has no collision among the inputs. -/
def CollisionFree (sha : Bytes → Bytes) (inputs : List Bytes) : Prop :=
  ∀ x ∈ inputs, ∀ y ∈ inputs, sha x = sha y → x = y

/-- What `merkle_root` hashes. -/
def treeInputs (sha : Bytes → Bytes) (hs : List Text) : List Bytes :=
  match hs.mapM (hexToBytes sha) with
  | none => []
  | some level => (hashed (innerNode sha) (Nat.clog 2 level.length) level).map fun p => p.1 ++ p.2

/-- What `verify_merkle_proof` hashes. -/
def proofInputs (sha : Bytes → Bytes) (leafHash : Text) (proof : List MerkleProofNode) :
    List Bytes :=
  match hexToBytes sha leafHash,
    proof.mapM fun node => (hexToBytes sha node.hash).map (node.isLeftSibling, ·) with
  | some leaf, some path => (onPath (innerNode sha) leaf path).map fun p => p.1 ++ p.2
  | _, _ => []

variable {sha : Bytes → Bytes} {inputs inputs' : List Bytes}

theorem CollisionFree.mono (h : CollisionFree sha inputs) (hsub : inputs' ⊆ inputs) :
    CollisionFree sha inputs' :=
  fun x hx y hy => h x (hsub hx) y (hsub hy)

/-- Without collisions of the hash there are none of pairs that can be told apart. -/
theorem CollisionFree.noCollision {s s' : List (Bytes × Bytes)}
    (h : CollisionFree sha (s.map (fun p => p.1 ++ p.2) ++ s'.map fun p => p.1 ++ p.2))
    (hs : ∀ p ∈ s, p.1.length = 32 ∧ p.2.length = 32)
    (hs' : ∀ p ∈ s', p.1.length = 32 ∨ p.2.length = 32) : NoCollision (innerNode sha) s s' := by
  intro p hp q hq heq
  have happend : p.1 ++ p.2 = q.1 ++ q.2 :=
    h _ (mem_append_left _ (mem_map_of_mem hp)) _ (mem_append_right _ (mem_map_of_mem hq)) heq
  obtain ⟨hfst, hsnd⟩ := hs p hp
  rcases hs' q hq with hlen | hlen
  · obtain ⟨h1, h2⟩ := append_inj happend (hfst.trans hlen.symm)
    exact Prod.ext h1 h2
  · obtain ⟨h1, h2⟩ := append_inj' happend (hsnd.trans hlen.symm)
    exact Prod.ext h1 h2

/-- The root is the one node at the top of the tree. -/
theorem merkleRoot_eq_some (hhs : ∀ text ∈ hs, IsHash text)
    (hroot : merkleRoot sha hs = some (some root)) :
    ∃ level top, hs.mapM (hexToBytes sha) = some level ∧ (∀ b ∈ level, b.length = 32) ∧
      level.map encodeHex = hs ∧
      Merkle.level (innerNode sha) (Nat.clog 2 level.length) level = [top] ∧
      root = encodeHex top := by
  obtain ⟨level, hlevel, hlen, htexts⟩ := mapM_hexToBytes sha hhs
  simp only [merkleRoot, hlevel, map_some, some.injEq, climb_eq_level (Nat.le_refl _)] at hroot
  obtain ⟨top, htop, rfl⟩ := map_eq_some_iff.mp hroot
  have hne : level ≠ [] := by
    rintro rfl
    cases htop
  have hone : (Merkle.level (innerNode sha) (Nat.clog 2 level.length) level).length = 1 :=
    length_level hne rfl
  obtain ⟨top', htop'⟩ := length_eq_one_iff.mp hone
  rw [htop'] at htop
  cases htop
  exact ⟨level, top, hlevel, hlen, htexts, htop', rfl⟩

theorem exists_merkleRoot (sha : Bytes → Bytes) (hne : hs ≠ []) (hhs : ∀ text ∈ hs, IsHash text) :
    ∃ root, merkleRoot sha hs = some (some root) := by
  obtain ⟨leaves, hleaves, -, htexts⟩ := mapM_hexToBytes sha hhs
  have hone : (level (innerNode sha) (.clog 2 leaves.length) leaves).length = 1 := by
    refine length_level ?_ rfl
    rintro rfl
    exact hne htexts.symm
  obtain ⟨top, htop⟩ := length_eq_one_iff.mp hone
  exact ⟨encodeHex top, by simp [merkleRoot, hleaves, climb_eq_level, htop]⟩

section

variable (hsha : ∀ x, (sha x).length = 32)

include hsha

theorem length_of_mem_hashed {level : List Bytes} (hl : ∀ b ∈ level, b.length = 32) :
    ∀ p ∈ hashed (innerNode sha) n level, p.1.length = 32 ∧ p.2.length = 32 :=
  forall_hashed hl fun _ _ => hsha _

theorem length_of_mem_onPath {path : List (Bool × Bytes)} (ha : a.length = 32) :
    ∀ p ∈ onPath (innerNode sha) a path, p.1.length = 32 ∨ p.2.length = 32 := by
  induction path generalizing a with
  | nil => simp [onPath]
  | cons step path ih =>
    intro p hp
    rcases mem_cons.mp hp with rfl | hp
    · unfold withSibling
      split
      · exact .inr ha
      · exact .inl ha
    · exact ih (hsha _) p hp

/-- A proof as long as the tree is high shows that its leaf is a hash. -/
theorem mem_of_verifyMerkleProof {leaf : Text} {proof : List MerkleProofNode}
    (hhs : ∀ h ∈ hs, IsHash h) (hleaf : IsHash leaf) (hlength : proof.length = Nat.clog 2 hs.length)
    (hfree : CollisionFree sha (treeInputs sha hs ++ proofInputs sha leaf proof))
    (hroot : merkleRoot sha hs = some (some root))
    (hverify : verifyMerkleProof sha leaf proof root = some true) : leaf ∈ hs := by
  obtain ⟨level, top, hlevel, hlen, htexts, htop, rfl⟩ := merkleRoot_eq_some hhs hroot
  obtain ⟨bytes, hbytes, hlen', rfl⟩ := hleaf.bytes sha
  cases hpath : proof.mapM fun node => (hexToBytes sha node.hash).map (node.isLeftSibling, ·) with
  | none => simp [verifyMerkleProof, hpath] at hverify
  | some path =>
    simp only [verifyMerkleProof, hbytes, hpath, Option.bind_eq_bind, Option.bind_some,
      Option.pure_def, some.injEq, decide_eq_true_eq] at hverify
    have hsteps : path.length = Nat.clog 2 level.length := by
      have := congrArg length (mapM_eq_some.1 hpath)
      simpa [hlength, ← htexts] using this.symm
    simp only [treeInputs, hlevel, proofInputs, hbytes, hpath] at hfree
    rw [← hsteps] at htop hfree
    have hmem : bytes ∈ level := by
      refine mem_of_ascend (hfree.noCollision (length_of_mem_hashed hsha hlen)
        (length_of_mem_onPath hsha hlen')) ?_
      rw [htop, encodeHex_inj hverify]
      exact mem_singleton_self top
    rw [← htexts]
    exact mem_map_of_mem hmem

/-- Equally many hashes with one root are the same hashes. -/
theorem eq_of_merkleRoot {hs' : List Text} (hhs : ∀ h ∈ hs, IsHash h) (hhs' : ∀ h ∈ hs', IsHash h)
    (hlength : hs.length = hs'.length)
    (hfree : CollisionFree sha (treeInputs sha hs ++ treeInputs sha hs'))
    (hroot : merkleRoot sha hs = some (some root))
    (hroot' : merkleRoot sha hs' = some (some root)) :
    hs = hs' := by
  obtain ⟨level, top, hlevel, hlen, rfl, htop, rfl⟩ := merkleRoot_eq_some hhs hroot
  obtain ⟨level', top', hlevel', hlen', rfl, htop', heq⟩ := merkleRoot_eq_some hhs' hroot'
  obtain rfl := encodeHex_inj heq
  simp only [length_map] at hlength
  simp only [treeInputs, hlevel, hlevel'] at hfree
  rw [← hlength] at htop' hfree
  have hpairs := length_of_mem_hashed hsha hlen' (n := .clog 2 level.length)
  rw [level_inj hlength (hfree.noCollision (length_of_mem_hashed hsha hlen) fun p hp =>
    .inl (hpairs p hp).1) (htop.trans htop'.symm)]

end

/-- If SHA-256 has no collision among what is hashed, a Merkle proof with a node for each level
proves membership, and a root with the number of its leaves determines them. -/
theorem merkle_root_sound (sha : Bytes → Bytes) (hsha : ∀ x, (sha x).length = 32) :
    (∀ (hs : List Text) (leaf root : Text) (proof : List MerkleProofNode),
      (∀ h ∈ hs, IsHash h) → IsHash leaf → proof.length = Nat.clog 2 hs.length →
      CollisionFree sha (treeInputs sha hs ++ proofInputs sha leaf proof) →
      merkleRoot sha hs = some (some root) → verifyMerkleProof sha leaf proof root = some true →
      leaf ∈ hs) ∧
    ∀ (hs hs' : List Text) (root : Text), (∀ h ∈ hs, IsHash h) → (∀ h ∈ hs', IsHash h) →
      hs.length = hs'.length → CollisionFree sha (treeInputs sha hs ++ treeInputs sha hs') →
      merkleRoot sha hs = some (some root) → merkleRoot sha hs' = some (some root) → hs = hs' :=
  ⟨fun _ _ _ _ hhs hleaf hlength hfree hroot hverify =>
      mem_of_verifyMerkleProof hsha hhs hleaf hlength hfree hroot hverify,
    fun _ _ _ hhs hhs' hlength hfree hroot hroot' =>
      eq_of_merkleRoot hsha hhs hhs' hlength hfree hroot hroot'⟩

/-- The proof made for any of the hashes has a node for each level and verifies against the root,
whatever the hash function, if every hash can be decoded. -/
theorem merkle_proof_verifies (sha : Bytes → Bytes) (hs : List Text)
    (hdecodes : ∀ h ∈ hs, (hexToBytes sha h).isSome) (i : Nat) (hi : i < hs.length) :
    ∃ proof root, merkleProof sha hs i = some (some proof) ∧
      proof.length = Nat.clog 2 hs.length ∧ merkleRoot sha hs = some (some root) ∧
      verifyMerkleProof sha hs[i] proof root = some true := by
  have hlevel : hs.mapM (hexToBytes sha) = some (hs.map fun h => (hexToBytes sha h).getD []) := by
    rw [mapM_eq_some, List.map_map]
    refine map_congr_left fun h hh => ?_
    obtain ⟨bytes, hbytes⟩ := isSome_iff_exists.1 (hdecodes h hh)
    simp [hbytes]
  obtain ⟨leaf, hleaf⟩ := isSome_iff_exists.1 (hdecodes hs[i] (getElem_mem hi))
  have hget : (hs.map fun h => (hexToBytes sha h).getD [])[i]? = some leaf := by simp [hi, hleaf]
  obtain ⟨path, hpath, hlength, htop⟩ :=
    @ascend_pathFrom _ (innerNode sha) _ _ _ _ (Nat.le_refl _) hget
  rw [length_map] at hpath hlength htop
  refine ⟨path.map fun step => ⟨encodeHex step.2, step.1⟩,
    encodeHex (ascend (innerNode sha) leaf path), ?_, ?_, ?_, ?_⟩
  · simp [merkleProof, Nat.not_le.2 hi, hlevel, hpath]
  · rw [length_map, hlength]
  · simp [merkleRoot, hlevel, htop]
  · have hread : (path.map fun step => MerkleProofNode.mk (encodeHex step.2) step.1).mapM
        (fun node => (hexToBytes sha node.hash).map (node.isLeftSibling, ·)) = some path := by
      simp [mapM_eq_some, hexToBytes_encodeHex]
    simp [verifyMerkleProof, hleaf, hread]

/-- SHA-256 of `a`, `b` and `c`, and of the pairs of the tree over them. -/
def sampleDigests : List Bytes := [
  0xca978112ca1bbdcafac231b39a23dc4da786eff8147c4e72b9807785afee48bb,
  0x3e23e8160039594a33894f6564e1b1348bbd7a0088d42c4acb73eeaed59c009d,
  0x2e7d2c03a9507ae265ecf5b5356885a53393a2029d241394997265a1a25aefc6,
  0xe5a01fee14e0ed5c48714f22180f25ad8365b53f9779f79dc4a3d7e93963f94a,
  0xa3e333fbee455b9a054cf05077f0f9d45b91bd13db4cd4a3681ec47455af085c,
  0xd31a37ef6ac14a2db1470c4316beb5592e6afd4465022339adafda76a18ffabe].map (beBytes 32)

/-- The hashes of `a`, `b` and `c`. -/
def sampleHashes : List Text := (sampleDigests.take 3).map encodeHex

/-- SHA-256 of the pairs of the tree over `sampleHashes`, by their first bytes. -/
def sampleSha (input : Bytes) : Bytes :=
  if input.head? = some 202 then sampleDigests.getD 3 []
  else if input.head? = some 46 then sampleDigests.getD 4 []
  else sampleDigests.getD 5 []

/-- The proof for the last of `sampleHashes`. -/
def sampleProof : List MerkleProofNode :=
  [⟨encodeHex (sampleDigests.getD 2 []), false⟩, ⟨encodeHex (sampleDigests.getD 3 []), true⟩]

theorem length_sampleSha (input : Bytes) : (sampleSha input).length = 32 := by
  unfold sampleSha
  split
  · rfl
  · split <;> rfl

instance (text : Text) : Decidable (IsHash text) :=
  decidable_of_iff (text.length = 64 ∧ text.all (lowerHex.contains ·) = true) (by simp [IsHash])

instance (sha : Bytes → Bytes) (inputs : List Bytes) : Decidable (CollisionFree sha inputs) :=
  inferInstanceAs (Decidable (∀ x ∈ inputs, ∀ y ∈ inputs, _))

theorem sampleHashes_root :
    merkleRoot sampleSha sampleHashes = some (some (encodeHex (sampleDigests.getD 5 []))) := by
  decide +kernel

theorem merkle_root_sound_of_sample :
    merkleRoot sampleSha sampleHashes = some (some (encodeHex (sampleDigests.getD 5 []))) ∧
      encodeHex (sampleDigests.getD 2 []) ∈ sampleHashes :=
  ⟨sampleHashes_root, (merkle_root_sound sampleSha length_sampleSha).1 sampleHashes _ _ sampleProof
    (by decide +kernel) (by decide +kernel) (by decide +kernel) (by decide +kernel)
    sampleHashes_root (by decide +kernel)⟩

theorem merkle_proof_verifies_of_sample :
    ∃ proof root, merkleProof sampleSha sampleHashes 2 = some (some proof) ∧
      proof.length = Nat.clog 2 sampleHashes.length ∧
      merkleRoot sampleSha sampleHashes = some (some root) ∧
      verifyMerkleProof sampleSha sampleHashes[2] proof root = some true :=
  merkle_proof_verifies sampleSha sampleHashes (by decide +kernel) 2 (by decide)

/-- A root verifies as a leaf of its own tree, by a proof without nodes; and an odd number of
hashes, whatever the hash function, has the root of the list with its last hash twice. -/
theorem merkle_root_unsound :
    (∃ (sha : Bytes → Bytes) (hs : List Text) (leaf root : Text),
      (∀ x, (sha x).length = 32) ∧ (∀ h ∈ hs, IsHash h) ∧ IsHash leaf ∧
      CollisionFree sha (treeInputs sha hs ++ proofInputs sha leaf []) ∧
      merkleRoot sha hs = some (some root) ∧ verifyMerkleProof sha leaf [] root = some true ∧
      leaf ∉ hs) ∧
    ∀ sha : Bytes → Bytes, ∃ (hs hs' : List Text) (root : Text), (∀ h ∈ hs, IsHash h) ∧
      (∀ h ∈ hs', IsHash h) ∧ hs ≠ hs' ∧ merkleRoot sha hs = some (some root) ∧
      merkleRoot sha hs' = some (some root) := by
  refine ⟨⟨sampleSha, sampleHashes, encodeHex (sampleDigests.getD 5 []), _, length_sampleSha,
    by decide +kernel, by decide +kernel, by decide +kernel, sampleHashes_root, by decide +kernel,
    by decide +kernel⟩, fun sha => ?_⟩
  exact ⟨.replicate 3 (.replicate 64 '0'), .replicate 4 (.replicate 64 '0'), _,
    by decide, by decide, by decide, rfl, rfl⟩

end NexusOs.Audit
