import Mathlib

/-!
# Bytes of numbers, hexadecimal text and framed parts

Big-endian numbers of a fixed width (`beBytes`), lower-case hexadecimal text (`hexEncode`) and
parts each put after its length (`framed`), as a hasher is fed, with what makes them readable
back: numbers that fit, bytes from their hexadecimal text, and framed parts from the front as
long as their lengths agree.
-/

namespace NexusOs.Framing

open List

/-- A byte string. -/
abbrev Bytes := List UInt8

/-- `str::as_bytes`: the bytes of a text. -/
def utf8 (text : String) : Bytes := text.toByteArray.data.toList

/-- `to_be_bytes` at a width: the last bytes of a number, most significant first. -/
def beBytes : Nat → Nat → Bytes
  | 0, _ => []
  | width + 1, n => beBytes width (n / 256) ++ [UInt8.ofNat n]

@[simp] theorem length_beBytes (width n : Nat) : (beBytes width n).length = width := by
  induction width generalizing n with
  | zero => rfl
  | succ width ih => simp [beBytes, ih]

/-- Numbers that fit are determined by their bytes. -/
theorem beBytes_inj {width a b : Nat} (ha : a < 2 ^ (8 * width)) (hb : b < 2 ^ (8 * width))
    (h : beBytes width a = beBytes width b) : a = b := by
  induction width generalizing a b with
  | zero => omega
  | succ width ih =>
    obtain ⟨hhigh, hlow⟩ := append_inj' h rfl
    rw [Nat.mul_succ, Nat.pow_add] at ha hb
    have hhigh : a / 256 = b / 256 := ih (by omega) (by omega) hhigh
    have hlow : a % 256 = b % 256 := by simpa using congrArg UInt8.toNat (head_eq_of_cons_eq hlow)
    omega

/-- The two hexadecimal digits of a byte. -/
def hexByte (b : UInt8) : List Char := [Nat.digitChar (b.toNat / 16), Nat.digitChar (b.toNat % 16)]

/-- `hex::encode`: the hexadecimal text of a byte string. -/
def hexEncode (bytes : Bytes) : String := String.ofList (bytes.flatMap hexByte)

theorem digitChar_inj {a b : Nat} (ha : a < 16) (hb : b < 16)
    (h : Nat.digitChar a = Nat.digitChar b) : a = b := by
  have hall : ∀ a : Fin 16, ∀ b : Fin 16, Nat.digitChar a = Nat.digitChar b → a = b := by decide
  exact Fin.val_eq_of_eq (hall ⟨a, ha⟩ ⟨b, hb⟩ h)

theorem hexByte_inj {a b : UInt8} (h : hexByte a = hexByte b) : a = b := by
  have ha := a.toNat_lt
  have hb := b.toNat_lt
  simp only [hexByte, List.cons.injEq, and_true] at h
  have hhigh := digitChar_inj (by omega) (by omega) h.1
  have hlow := digitChar_inj (by omega) (by omega) h.2
  exact UInt8.toNat_inj.mp (by omega)

variable {a b domain part part' : Bytes} {parts parts' : List Bytes}

/-- Every byte takes two digits, so the digits are read back pair by pair. -/
theorem flatMap_hexByte_inj (h : a.flatMap hexByte = b.flatMap hexByte) : a = b := by
  induction a generalizing b with
  | nil =>
    cases b with
    | nil => rfl
    | cons => simp [hexByte] at h
  | cons x a ih =>
    cases b with
    | nil => simp [hexByte] at h
    | cons y b =>
      obtain ⟨hhead, htail⟩ := append_inj h rfl
      rw [hexByte_inj hhead, ih htail]

/-- Byte strings are determined by their hexadecimal text. -/
theorem hexEncode_inj (h : hexEncode a = hexEncode b) : a = b :=
  flatMap_hexByte_inj (String.ofList_injective h)

/-- Each part after its length in eight bytes, all after the domain. -/
def framed (domain : Bytes) (parts : List Bytes) : Bytes :=
  domain ++ parts.flatMap fun part => beBytes 8 part.length ++ part

/-- The first part of a frame is determined by it if its length is known, and so is the rest. -/
theorem framed_cons_inj (hlength : part.length = part'.length)
    (h : framed domain (part :: parts) = framed domain (part' :: parts')) :
    part = part' ∧ framed domain parts = framed domain parts' := by
  have h := append_cancel_left h
  simp only [flatMap_cons, append_assoc] at h
  obtain ⟨-, h⟩ := append_inj h (by simp)
  obtain ⟨hpart, hrest⟩ := append_inj h hlength
  exact ⟨hpart, congrArg (domain ++ ·) hrest⟩

/-- Parts that are not too long are determined by their frame, and so is their number. -/
theorem framed_inj (hlength : ∀ part ∈ parts, part.length < 2 ^ 64)
    (hlength' : ∀ part ∈ parts', part.length < 2 ^ 64)
    (h : framed domain parts = framed domain parts') : parts = parts' := by
  induction parts generalizing parts' with
  | nil =>
    cases parts' with
    | nil => rfl
    | cons part parts' =>
      have hempty := congrArg List.length (append_cancel_left h)
      simp at hempty
      omega
  | cons part parts ih =>
    cases parts' with
    | nil =>
      have hempty := congrArg List.length (append_cancel_left h)
      simp at hempty
    | cons part' parts' =>
      have hprefixed := append_cancel_left h
      simp only [flatMap_cons, append_assoc] at hprefixed
      have hsame := beBytes_inj (hlength part (by simp)) (hlength' part' (by simp))
        (append_inj hprefixed (by simp)).1
      obtain ⟨rfl, hrest⟩ := framed_cons_inj hsame h
      rw [ih (fun p hp => hlength p (by simp [hp])) (fun p hp => hlength' p (by simp [hp])) hrest]

end NexusOs.Framing
