import NexusOs.Lib.Framing

/-!
# UTF-8

A text is the list of its characters. `encode` gives its bytes; `pieces` reads any bytes as
characters and ill-formed pieces between them, and finds exactly the characters of a text in its
bytes (`pieces_encode`, `encode_of_pieces`). A byte below 128 of an encoded text is a character
of its own (`ascii_or_high`), so that bytes can be searched for ASCII without decoding.
-/

namespace NexusOs.Utf8

open Framing List

/-- A text: its characters. -/
abbrev Text := List Char

/-- A string is used as the text of its characters. -/
instance : Coe String Text := ⟨String.toList⟩

/-- The bytes of a text. -/
def encode (text : Text) : Bytes := text.flatMap String.utf8EncodeChar

/-- `len` of a text: how many bytes it has. -/
def size (text : Text) : Nat := (text.map Char.utf8Size).sum

/-- What is read at the front of some bytes: a character, or an ill-formed piece of so many
bytes. -/
inductive Piece where
  | char (c : Char)
  | invalid (length : Nat)
  deriving DecidableEq

/-- A continuation byte. -/
def isContinuation (b : UInt8) : Bool := b &&& 0xC0 == 0x80

/-- Whether the second byte may follow the first of a character of three or four bytes. -/
def mayFollow (first second : UInt8) : Bool :=
  if first == 0xE0 then 0xA0 ≤ second && second ≤ 0xBF
  else if first == 0xED then 0x80 ≤ second && second ≤ 0x9F
  else if first == 0xF0 then 0x90 ≤ second && second ≤ 0xBF
  else if first == 0xF4 then 0x80 ≤ second && second ≤ 0x8F
  else 0xE0 ≤ first && first ≤ 0xF4 && 0x80 ≤ second && second ≤ 0xBF

/-- `Utf8Chunk::invalid`: the bytes of an ill-formed character before reading goes on, given
that no character is at the front. -/
def invalidLength (first : UInt8) (rest : Bytes) : Nat :=
  if mayFollow first (rest.headD 0) then
    if 0xF0 ≤ first ∧ isContinuation (rest.tail.headD 0) then 3 else 2
  else 1

theorem invalidLength_pos (first : UInt8) (rest : Bytes) : 0 < invalidLength first rest := by
  unfold invalidLength
  split
  · split <;> omega
  · omega

/-- The character at the front of some bytes. -/
def decodeChar? (bytes : Bytes) : Option Char := bytes.toByteArray.utf8DecodeChar? 0

/-- `utf8_chunks`: the characters and ill-formed pieces of some bytes. -/
def pieces : Bytes → List Piece
  | [] => []
  | first :: rest =>
    match decodeChar? (first :: rest) with
    | some c => .char c :: pieces ((first :: rest).drop c.utf8Size)
    | none => .invalid (invalidLength first rest) ::
        pieces ((first :: rest).drop (invalidLength first rest))
  termination_by bytes => bytes.length
  decreasing_by
    · have := c.utf8Size_pos
      simp only [length_drop, length_cons]
      omega
    · have := invalidLength_pos first rest
      simp only [length_drop, length_cons]
      omega

/-- The characters before the first ill-formed piece, or how many bytes come before it. -/
def valid : Nat → List Piece → Except Nat Text
  | _, [] => .ok []
  | before, .char c :: rest => (valid (before + c.utf8Size) rest).map (c :: ·)
  | before, .invalid _ :: _ => .error before

/-- `str::from_utf8`: the text some bytes encode, or how many bytes are well formed. -/
def fromUtf8 (bytes : Bytes) : Except Nat Text := valid 0 (pieces bytes)

@[simp] theorem encode_nil : encode [] = [] := rfl

variable (c : Char) (text : Text) {bytes : Bytes}

@[simp] theorem encode_cons : encode (c :: text) = String.utf8EncodeChar c ++ encode text := rfl

@[simp] theorem encode_append (a b : Text) : encode (a ++ b) = encode a ++ encode b := by
  simp [encode]

theorem length_encode : (encode text).length = size text := by
  induction text with
  | nil => rfl
  | cons c text ih =>
    rw [encode_cons, length_append, ih, String.length_utf8EncodeChar]
    rfl

theorem decodeChar?_append (bytes : Bytes) :
    decodeChar? (String.utf8EncodeChar c ++ bytes) = some c := by
  rw [decodeChar?, toByteArray_append]
  exact ByteArray.utf8DecodeChar?_utf8EncodeChar_append

theorem eq_append_of_decodeChar? {c : Char} (h : decodeChar? bytes = some c) :
    bytes = String.utf8EncodeChar c ++ bytes.drop c.utf8Size := by
  obtain ⟨rest, hrest⟩ := ByteArray.exists_of_utf8DecodeChar?_eq_some h
  have hbytes : bytes = String.utf8EncodeChar c ++ rest.data.toList := by
    have := congrArg (fun b => b.data.toList) hrest
    simpa using this
  rw [← String.length_utf8EncodeChar c]
  nth_rewrite 2 [hbytes]
  rw [drop_left]
  exact hbytes

/-- A character at the front is read as itself. -/
theorem pieces_append (bytes : Bytes) :
    pieces (String.utf8EncodeChar c ++ bytes) = .char c :: pieces bytes := by
  obtain ⟨first, rest, hcons⟩ := exists_cons_of_ne_nil (String.utf8EncodeChar_ne_nil (c := c))
  have hdecode := decodeChar?_append c bytes
  have hdrop : (String.utf8EncodeChar c ++ bytes).drop c.utf8Size = bytes := by
    rw [← String.length_utf8EncodeChar c, drop_left]
  rw [hcons, cons_append] at hdecode hdrop ⊢
  rw [pieces, hdecode]
  simp only [hdrop]

/-- The bytes of a text are read as its characters. -/
theorem pieces_encode : pieces (encode text) = text.map .char := by
  induction text with
  | nil => simp [pieces]
  | cons c text ih => rw [encode_cons, pieces_append, ih, map_cons]

/-- Bytes that are read as characters only are the bytes of these characters. -/
theorem encode_of_pieces {text : Text} (h : pieces bytes = text.map .char) :
    bytes = encode text := by
  induction text generalizing bytes with
  | nil =>
    cases bytes with
    | nil => rfl
    | cons first rest =>
      rw [pieces] at h
      split at h <;> simp at h
  | cons c text ih =>
    cases bytes with
    | nil => simp [pieces] at h
    | cons first rest =>
      rw [pieces] at h
      split at h
      · rename_i c' hdecode
        obtain ⟨hc, hrest⟩ := List.cons.inj h
        cases hc
        rw [encode_cons, ← ih hrest]
        exact eq_append_of_decodeChar? hdecode
      · simp at h

theorem valid_map_char (before : Nat) (text : Text) : valid before (text.map .char) = .ok text := by
  induction text generalizing before with
  | nil => rfl
  | cons c text ih =>
    rw [map_cons, valid, ih]
    rfl

@[simp] theorem fromUtf8_encode : fromUtf8 (encode text) = .ok text := by
  rw [fromUtf8, pieces_encode, valid_map_char]

/-- Texts are determined by their bytes. -/
theorem encode_injective : Function.Injective encode := by
  intro a b h
  simpa using (fromUtf8_encode a).symm.trans ((congrArg fromUtf8 h).trans (fromUtf8_encode b))

/-- A character is one byte below 128, or all its bytes are at least 128. -/
theorem ascii_or_high :
    String.utf8EncodeChar c = [UInt8.ofNat c.toNat] ∧ c.toNat < 128 ∨
      128 ≤ c.toNat ∧ ∀ b ∈ String.utf8EncodeChar c, 128 ≤ b.toNat := by
  have hval : c.val.toNat = c.toNat := rfl
  by_cases h : c.toNat ≤ 127
  · simp [String.utf8EncodeChar, h]
    omega
  · right
    simp only [String.utf8EncodeChar, hval, h, if_false]
    split
    · simp
      omega
    split
    · simp
      omega
    · simp
      omega

/-- An ASCII character whose byte is found in the bytes of a text is in the text. -/
theorem mem_of_mem_encode {c : Char} {text : Text} (hc : c.toNat < 128)
    (h : UInt8.ofNat c.toNat ∈ encode text) : c ∈ text := by
  obtain ⟨d, hd, hmem⟩ := mem_flatMap.mp h
  have hbyte : (UInt8.ofNat c.toNat).toNat = c.toNat := by exact Nat.mod_eq_of_lt (by omega)
  rcases ascii_or_high d with ⟨hone, hlow⟩ | ⟨-, hhigh⟩
  · rw [hone, mem_singleton] at hmem
    have hsame : c.toNat = d.toNat := by
      have hnat := congrArg UInt8.toNat hmem
      rw [hbyte, UInt8.toNat_ofNat', Nat.mod_eq_of_lt (by omega)] at hnat
      exact hnat
    rwa [Char.toNat_inj.mp hsame]
  · have := hhigh _ hmem
    omega

end NexusOs.Utf8
