import NexusOs.InertPage.Scan

/-!
# What a scan that finds nothing says

A finding is never lost, so a scan that ends with none noted none: the input is not too large, all
its characters are allowed and no needle occurs in it (`of_scan_eq_none`).
-/

namespace NexusOs.InertPage

open Framing Utf8 List POLICY_V1

variable {offset n fuel : Nat} {rest needle bytes : Bytes}

/-- A character that may stand in a page: LF or one of the profile. -/
def AllowedChar (c : Char) : Prop := c = '\n' ∨ inRanges profileRanges c = true

/-- Bytes occur in others, ASCII case aside. -/
def OccursIn (needle bytes : Bytes) : Prop := needle.map lowercase <:+: bytes.map lowercase

namespace LexicalFindings

variable {f : LexicalFindings}

theorem note_ne_none (code : RefusalCode) (offset : Nat) : f.note code offset ≠ none := by
  intro h
  have hcode : (f.note code offset).firstOffset code = .none := by rw [h]; rfl
  simp only [note, if_true] at hcode
  split at hcode
  · split at hcode <;> cases hcode
  · cases hcode

theorem first_eq_none : f.first = .none ↔ f = none := by
  constructor
  · intro h
    simp only [first, List.findSome?_eq_none_iff, Option.map_eq_none_iff] at h
    have hall : f.firstOffset = fun _ => .none := funext fun c => h c (RefusalCode.mem_codes c)
    exact congrArg mk hall
  · rintro rfl
    simp [first, none]

/-- A conditional note leaves nothing found only if the condition fails. -/
theorem ite_note_eq_none {p : Prop} [Decidable p] {code : RefusalCode} :
    (if p then f.note code offset else f) = none ↔ f = none ∧ ¬p := by
  by_cases hp : p
  · simp [hp, note_ne_none]
  · simp [hp]

end LexicalFindings

open LexicalFindings (note_ne_none ite_note_eq_none)

theorem characterCode_eq_none {c : Char} : characterCode c offset = none ↔ AllowedChar c := by
  unfold characterCode AllowedChar
  by_cases hlf : c = '\n'
  · simp [hlf]
  by_cases hprofile : inRanges profileRanges c = true
  · have hne : c ≠ '\r' := by
      rintro rfl
      revert hprofile
      decide
    have hnum := hprofile
    simp only [inRanges, profileRanges, any_cons, any_nil, Bool.or_false,
      Bool.or_eq_true, Bool.and_eq_true, decide_eq_true_eq] at hnum
    have hbom : ¬(c.toNat = 0xFEFF ∧ offset = 0) := by omega
    have hcontrol : ¬inRanges controlRanges c = true := by
      simp only [inRanges, controlRanges, any_cons, any_nil, Bool.or_false,
        Bool.or_eq_true, Bool.and_eq_true, decide_eq_true_eq]
      omega
    have hinvisible : ¬inRanges invisibleRanges c = true := by
      simp only [inRanges, invisibleRanges, any_cons, any_nil, Bool.or_false,
        Bool.or_eq_true, Bool.and_eq_true, decide_eq_true_eq]
      omega
    simp [hne, hbom, hcontrol, hinvisible, hprofile]
  · repeat' split
    all_goals simp_all

variable {f : LexicalFindings}

theorem of_characters_eq_none {ps : List Piece} (h : characters offset ps f = .none) :
    f = .none ∧ ∃ text : Text, ps = text.map .char ∧ ∀ c ∈ text, AllowedChar c := by
  induction ps generalizing offset f with
  | nil => exact ⟨h, [], rfl, by simp⟩
  | cons piece ps ih =>
    cases piece with
    | char c =>
      obtain ⟨hf, text, rfl, htext⟩ := ih h
      cases hcode : characterCode c offset with
      | some code =>
        rw [hcode] at hf
        exact absurd hf (note_ne_none _ _)
      | none =>
        rw [hcode] at hf
        refine ⟨hf, c :: text, rfl, ?_⟩
        simpa using ⟨characterCode_eq_none.mp hcode, htext⟩
    | invalid length => exact absurd (ih h).1 (note_ne_none _ _)

theorem characters_allowed {text : Text} (h : ∀ c ∈ text, AllowedChar c) :
    characters offset (text.map .char) f = f := by
  induction text generalizing offset with
  | nil => rfl
  | cons c text ih =>
    have hcode : characterCode c offset = none := characterCode_eq_none.mpr (h c (by simp))
    rw [map_cons, characters, hcode]
    exact ih fun c hc => h c (by simp [hc])

theorem of_attributeName_eq_none {raw : Bytes}
    (h : attributeName raw offset f = .none) : f = .none := by
  unfold attributeName at h
  simp only at h
  split at h
  · exact absurd h (note_ne_none _ _)
  split at h
  · exact absurd h (note_ne_none _ _)
  split at h
  · exact absurd h (note_ne_none _ _)
  exact (ite_note_eq_none.mp h).1

theorem of_scanAttributes_eq_none (h : (scanAttributes n fuel rest f).2 = .none) : f = .none := by
  induction fuel generalizing rest f with
  | zero => exact h
  | succ fuel ih =>
    unfold scanAttributes at h
    split at h
    · exact h
    split at h
    · exact h
    simp only at h
    split at h
    · exact of_attributeName_eq_none (ih h)
    split at h
    · split at h
      · exact of_attributeName_eq_none h
      split at h
      · exact of_attributeName_eq_none (ih h)
      · split at h
        · exact of_attributeName_eq_none h
        · exact of_attributeName_eq_none (ih h)
    · exact of_attributeName_eq_none (ih h)

theorem of_tags_eq_none {styles : Nat} (h : tags n fuel styles rest f = .none) : f = .none := by
  induction fuel generalizing styles rest f with
  | zero => exact h
  | succ fuel ih =>
    cases rest with
    | nil => exact h
    | cons b rest =>
      rw [tags] at h
      split at h
      · exact ih h
      split at h
      · exact ih h
      have hfirst := of_scanAttributes_eq_none (ih h)
      split at hfirst
      · exact absurd hfirst (note_ne_none _ _)
      · split at hfirst
        · exact absurd hfirst (note_ne_none _ _)
        · exact (ite_note_eq_none.mp (ite_note_eq_none.mp hfirst).1).1

theorem startsIgnoringCase_iff :
    startsIgnoringCase needle rest = true ↔ needle.map lowercase <+: rest.map lowercase := by
  rw [prefix_iff_eq_take]
  simp only [startsIgnoringCase, Bool.and_eq_true, decide_eq_true_eq, map_take, length_map]
  constructor
  · exact fun h => h.2.symm
  intro h
  have hlength := congrArg List.length h
  simp only [length_map, length_take] at hlength
  exact ⟨by omega, h.symm⟩

/-- A needle occurs if the input starts with it at some offset. -/
theorem occursIn_iff :
    OccursIn needle bytes ↔ ∃ rest, rest <:+ bytes ∧ startsIgnoringCase needle rest = true := by
  simp only [OccursIn, infix_iff_prefix_suffix, startsIgnoringCase_iff]
  constructor
  · rintro ⟨part, hneedle, hpart⟩
    refine ⟨bytes.drop (bytes.length - part.length), drop_suffix _ _, ?_⟩
    rw [map_drop]
    have hdrop := suffix_iff_eq_drop.mp hpart
    rw [length_map] at hdrop
    rwa [← hdrop]
  · rintro ⟨rest, hrest, hneedle⟩
    exact ⟨rest.map lowercase, hneedle, hrest.map lowercase⟩

/-- No needle of the policy stands at the front. -/
def NoNeedleAt (rest : Bytes) : Prop :=
  ∀ needle ∈ needles, startsIgnoringCase (encode needle.1) rest = false

theorem foldl_needles_eq_none {needles : List (Text × RefusalCode)} :
    needles.foldl (fun f needle =>
        if startsIgnoringCase (encode needle.1) rest then f.note needle.2 offset else f) f =
        .none ↔
      f = .none ∧ ∀ needle ∈ needles, startsIgnoringCase (encode needle.1) rest = false := by
  induction needles generalizing f with
  | nil => simp
  | cons needle needles ih =>
    rw [foldl_cons, ih, ite_note_eq_none]
    simp [and_assoc]

theorem of_anywhere_eq_none (h : anywhere offset rest f = .none) : f = .none ∧ NoNeedleAt rest := by
  obtain ⟨hf, hneedles⟩ := foldl_needles_eq_none.mp h
  have hf := (ite_note_eq_none.mp hf).1
  split at hf
  · split at hf
    · exact ⟨hf, hneedles⟩
    · exact absurd hf (note_ne_none _ _)
  · exact ⟨hf, hneedles⟩

theorem of_anywhereFrom_eq_none (h : anywhereFrom offset bytes f = .none) :
    f = .none ∧ ∀ rest, rest <:+ bytes → rest ≠ [] → NoNeedleAt rest := by
  induction bytes generalizing offset f with
  | nil => exact ⟨h, fun rest hrest hne => absurd (suffix_nil.mp hrest) hne⟩
  | cons b bytes ih =>
    obtain ⟨hf, hneedles⟩ := ih h
    obtain ⟨hf, hhere⟩ := of_anywhere_eq_none hf
    refine ⟨hf, fun rest hrest hne => ?_⟩
    rcases suffix_cons_iff.mp hrest with rfl | hrest
    · exact hhere
    · exact hneedles rest hrest hne

/-- No needle stands anywhere, offset by offset. -/
theorem noNeedleAt_iff :
    (∀ rest, rest <:+ bytes → rest ≠ [] → NoNeedleAt rest) ↔
      ∀ needle ∈ needles, ¬OccursIn (encode needle.1) bytes := by
  constructor
  · intro h needle hneedle hoccurs
    obtain ⟨rest, hrest, hstarts⟩ := occursIn_iff.mp hoccurs
    have hne : rest ≠ [] := by
      rintro rfl
      have hempty : ∀ needle ∈ needles, startsIgnoringCase (encode needle.1) [] = false := by decide
      rw [hempty needle hneedle] at hstarts
      cases hstarts
    rw [h rest hrest hne needle hneedle] at hstarts
    cases hstarts
  · intro h rest hrest _ needle hneedle
    by_contra hstarts
    exact h needle hneedle (occursIn_iff.mpr ⟨rest, hrest, by simpa using hstarts⟩)

/-- The scan found nothing: size, characters and needles are as they should be. -/
theorem of_scan_eq_none {input : Bytes} (h : scan input = .none) :
    input.length ≤ maxPageBytes ∧
      (∃ text, input = encode text ∧ ∀ c ∈ text, AllowedChar c) ∧
      ∀ needle ∈ needles, ¬OccursIn (encode needle.1) input := by
  unfold scan at h
  split at h
  · exact absurd h (note_ne_none _ _)
  obtain ⟨hf, hneedles⟩ := of_anywhereFrom_eq_none h
  obtain ⟨-, text, hpieces, htext⟩ :=
    of_characters_eq_none (ite_note_eq_none.mp (of_tags_eq_none hf)).1
  exact ⟨by omega, ⟨text, encode_of_pieces hpieces, htext⟩, noNeedleAt_iff.mp hneedles⟩

end NexusOs.InertPage
