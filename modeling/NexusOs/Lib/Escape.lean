import NexusOs.Lib.Utf8

/-!
# Escaped text

The escapes of a character as Rust writes them, a reader that undoes them, and the pieces of a
list that a line can hold. `read_escapeDefault` is the round trip of one character; the reader is
a machine that stands somewhere in the text, so round trips compose from left to right.
-/

namespace NexusOs.Escape

open Utf8 List

variable {c : Char} {d size : Nat} {α : Type}

/-- `char::escape_unicode`. -/
def escapeUnicode (c : Char) : Text :=
  '\\' :: 'u' :: '\x7b' :: (Nat.toDigits 16 c.toNat ++ ['\x7d'])

/-- `char::escape_default`. -/
def escapeDefault (c : Char) : Text :=
  if c = '\t' then ['\\', 't']
  else if c = '\r' then ['\\', 'r']
  else if c = '\n' then ['\\', 'n']
  else if c = '\'' ∨ c = '"' ∨ c = '\\' then ['\\', c]
  else if ' ' ≤ c ∧ c ≤ '~' then [c]
  else escapeUnicode c

/-- Where a reader stands: in plain text, after a backslash, before a brace, or within the digits
of a code point, with what they say so far. -/
inductive Reading where
  | plain
  | slash
  | brace
  | code (n : Nat)

/-- What a letter after a backslash stands for. -/
def letter (c : Char) : Char :=
  if c = 't' then '\t' else if c = 'r' then '\r' else if c = 'n' then '\n' else c

/-- The value of a hexadecimal digit. -/
def digitValue (c : Char) : Nat := if c.toNat < 58 then c.toNat - 48 else c.toNat - 87

/-- The text that is escaped in what is left to read. -/
def readFrom : Reading → Text → Text
  | _, [] => []
  | .plain, c :: rest => if c = '\\' then readFrom .slash rest else c :: readFrom .plain rest
  | .slash, c :: rest => if c = 'u' then readFrom .brace rest else letter c :: readFrom .plain rest
  | .brace, _ :: rest => readFrom (.code 0) rest
  | .code n, c :: rest =>
    if c = '\x7d' then Char.ofNat n :: readFrom .plain rest
    else readFrom (.code (16 * n + digitValue c)) rest

/-- The text that is escaped. -/
def unescape (text : Text) : Text := readFrom .plain text

theorem readFrom_plain (h : c ≠ '\\') (rest : Text) :
    readFrom .plain (c :: rest) = c :: readFrom .plain rest := by
  rw [readFrom, if_neg h]

theorem readFrom_slash (h : c ≠ 'u') (rest : Text) :
    readFrom .plain ('\\' :: c :: rest) = letter c :: readFrom .plain rest := by
  rw [readFrom, if_pos rfl, readFrom, if_neg h]

theorem digitValue_digitChar (h : d < 16) : digitValue (Nat.digitChar d) = d := by
  have hall : ∀ d < 16, digitValue (Nat.digitChar d) = d := by decide
  exact hall d h

/-- A hexadecimal digit is printable, and closes no brace. -/
theorem digitChar_printable (h : d < 16) :
    32 ≤ (Nat.digitChar d).toNat ∧ (Nat.digitChar d).toNat ≤ 126 ∧ Nat.digitChar d ≠ '\x7d' := by
  have hall : ∀ d < 16, 32 ≤ (Nat.digitChar d).toNat ∧ (Nat.digitChar d).toNat ≤ 126 ∧
      Nat.digitChar d ≠ '\x7d' := by decide
  exact hall d h

theorem exists_of_mem_toDigits {n : Nat} (h : c ∈ Nat.toDigits 16 n) :
    ∃ d < 16, c = Nat.digitChar d := by
  induction n using Nat.strong_induction_on with
  | _ n ih =>
    rw [Nat.toDigits_eq_if (by decide)] at h
    split at h
    · next hlt => exact ⟨n, hlt, mem_singleton.mp h⟩
    · rcases mem_append.mp h with h | h
      · exact ih (n / 16) (Nat.div_lt_self (by omega) (by decide)) h
      · exact ⟨n % 16, Nat.mod_lt n (by decide), mem_singleton.mp h⟩

/-- The digits of a number say that number. -/
theorem readFrom_toDigits (n : Nat) (rest : Text) :
    readFrom (.code 0) (Nat.toDigits 16 n ++ rest) = readFrom (.code n) rest := by
  -- Digits go on from whatever the digits before them say.
  have hdigit : ∀ {k d : Nat} {rest : Text}, d < 16 →
      readFrom (.code k) (Nat.digitChar d :: rest) = readFrom (.code (16 * k + d)) rest := by
    intro k d rest hd
    rw [readFrom, if_neg (digitChar_printable hd).2.2, digitValue_digitChar hd]
  induction n using Nat.strong_induction_on generalizing rest with
  | _ n ih =>
    rw [Nat.toDigits_eq_if (by decide)]
    split
    · next hlt =>
      rw [singleton_append, hdigit hlt]
      simp
    · rw [append_assoc, ih (n / 16) (Nat.div_lt_self (by omega) (by decide)),
        singleton_append, hdigit (Nat.mod_lt n (by decide)), Nat.div_add_mod]

theorem read_escapeUnicode (c : Char) (rest : Text) :
    readFrom .plain (escapeUnicode c ++ rest) = c :: readFrom .plain rest := by
  show readFrom .plain ('\\' :: 'u' :: '\x7b' :: (Nat.toDigits 16 c.toNat ++ ['\x7d'] ++ rest)) = _
  rw [readFrom, if_pos rfl, readFrom, if_pos rfl, readFrom, append_assoc, readFrom_toDigits]
  show readFrom (.code c.toNat) ('\x7d' :: rest) = _
  rw [readFrom, if_pos rfl, Char.ofNat_toNat]

theorem read_escapeDefault (c : Char) (rest : Text) :
    readFrom .plain (escapeDefault c ++ rest) = c :: readFrom .plain rest := by
  unfold escapeDefault
  split
  · next h => exact h ▸ readFrom_slash (by decide) rest
  split
  · next h => exact h ▸ readFrom_slash (by decide) rest
  split
  · next h => exact h ▸ readFrom_slash (by decide) rest
  split
  · next h => rcases h with rfl | rfl | rfl <;> exact readFrom_slash (by decide) rest
  next hquote =>
  split
  · exact readFrom_plain (fun h => hquote (.inr (.inr h))) rest
  · exact read_escapeUnicode c rest

/-- An escape is printable ASCII. -/
theorem escapeUnicode_printable {d : Char} (h : d ∈ escapeUnicode c) :
    32 ≤ d.toNat ∧ d.toNat ≤ 126 := by
  simp only [escapeUnicode, mem_cons, mem_append, not_mem_nil, or_false] at h
  rcases h with rfl | rfl | rfl | h | rfl
  · decide
  · decide
  · decide
  · obtain ⟨k, hk, rfl⟩ := exists_of_mem_toDigits h
    exact ⟨(digitChar_printable hk).1, (digitChar_printable hk).2.1⟩
  · decide

theorem escapeDefault_printable {d : Char} (h : d ∈ escapeDefault c) :
    32 ≤ d.toNat ∧ d.toNat ≤ 126 := by
  have hpair : ∀ {e : Char}, 32 ≤ e.toNat ∧ e.toNat ≤ 126 → d ∈ ['\\', e] →
      32 ≤ d.toNat ∧ d.toNat ≤ 126 := by
    intro e he hd
    simp only [mem_cons, not_mem_nil, or_false] at hd
    rcases hd with rfl | rfl
    · decide
    · exact he
  unfold escapeDefault at h
  split at h
  · exact hpair (by decide) h
  split at h
  · exact hpair (by decide) h
  split at h
  · exact hpair (by decide) h
  split at h
  · next hquote => rcases hquote with rfl | rfl | rfl <;> exact hpair (by decide) h
  split at h
  · next hascii =>
    rw [mem_singleton.mp h]
    exact hascii
  · exact escapeUnicode_printable h

/-- `slice::chunks`: pieces of `size`, the last of which may be shorter. -/
def chunks {α : Type} (size : Nat) (l : List α) : List (List α) :=
  if size = 0 ∨ l = [] then [] else l.take size :: chunks size (l.drop size)
termination_by l.length
decreasing_by
  rename_i h
  rw [not_or] at h
  have := length_pos_iff.mpr h.2
  simp only [length_drop]
  omega

theorem flatten_chunks (hsize : 0 < size) (l : List α) : (chunks size l).flatten = l := by
  fun_induction chunks size l with
  | case1 l h =>
    rcases h with rfl | rfl
    · cases hsize
    · rfl
  | case2 l h ih => rw [flatten_cons, ih, take_append_drop]

theorem length_of_mem_chunks {l chunk : List α} (h : chunk ∈ chunks size l) :
    chunk.length ≤ size := by
  fun_induction chunks size l with
  | case1 l hnil => cases h
  | case2 l hne ih =>
    rcases mem_cons.mp h with rfl | h
    · exact length_take_le _ _
    · exact ih h

end NexusOs.Escape
