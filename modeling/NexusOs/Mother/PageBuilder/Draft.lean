import NexusOs.InertPage.Clean
import NexusOs.Mother.PageBuilder

/-!
# The texts of an accepted draft

Normalized words stand one space apart, so a draft that `parse_draft` accepts has only texts that
are clean and spaced as the page check asks for (`Accepted`).
-/

namespace NexusOs.PageBuilder

open Utf8 InertPage List

/-! ## Words -/

/-- Two neighbours in `a ++ b` are in `a`, in `b`, or meet at the border. -/
theorem pair_infix_append {α : Type} {x y : α} {a b : List α} (h : [x, y] <:+: a ++ b) :
    [x, y] <:+: a ∨ [x, y] <:+: b ∨ a.getLast? = some x ∧ b.head? = some y := by
  rcases infix_append_iff.mp h with h | h | ⟨front, back, hsplit, hfront, hback⟩
  · exact .inl h
  · exact .inr (.inl h)
  rcases append_eq_cons_iff.mp hsplit.symm with ⟨rfl, rfl⟩ | ⟨front, rfl, hrest⟩
  · exact .inr (.inl hback.isInfix)
  rcases append_eq_cons_iff.mp hrest.symm with ⟨rfl, rfl⟩ | ⟨front, rfl, hnil⟩
  · obtain ⟨start, rfl⟩ := hfront
    obtain ⟨rest, rfl⟩ := hback
    exact .inr (.inr ⟨by simp, rfl⟩)
  · obtain ⟨rfl, rfl⟩ := append_eq_nil_iff.mp hnil.symm
    exact .inl hfront.isInfix

variable {words : List Text} {d : PageDraft}

/-- A word in joined words is in one of them. -/
theorem word_of_intercalate {word : Text} (hword : ' ' ∉ word)
    (h : word <:+: [' '].intercalate words) : word = [] ∨ ∃ w ∈ words, word <:+: w := by
  induction words with
  | nil => exact .inl (infix_nil.mp h)
  | cons w words ih =>
    cases words with
    | nil => exact .inr ⟨w, mem_cons_self, by simpa using h⟩
    | cons w' words =>
      rcases infix_of_separated hword h with h | h
      · exact .inr ⟨w, mem_cons_self, h⟩
      · rcases ih h with h | ⟨v, hv, h⟩
        · exact .inl h
        · exact .inr ⟨v, mem_cons_of_mem _ hv, h⟩

/-- The pieces of a text between its spaces are words. -/
theorem not_mem_of_mem_splitOn {text w : Text} (h : w ∈ text.splitOn ' ') : ' ' ∉ w := by
  induction text generalizing w with
  | nil =>
    obtain rfl : w = [] := by simpa using h
    simp
  | cons c text ih =>
    rw [splitOn_cons_eq_if_modifyHead] at h
    split at h
    · rcases mem_cons.mp h with rfl | h
      · simp
      · exact ih h
    · rename_i hc
      cases hsplit : text.splitOn ' ' with
      | nil => exact absurd hsplit (splitOn_ne_nil _ _)
      | cons v vs =>
        rw [hsplit] at h
        rcases mem_cons.mp h with rfl | h
        · have hv := ih (hsplit ▸ mem_cons_self)
          simp only [mem_cons, not_or]
          exact ⟨fun heq => hc (by simp [← heq]), hv⟩
        · exact ih (hsplit ▸ mem_cons_of_mem _ h)

/-- Spaces stand between words only, one at a time. -/
structure Spaced (text : Text) : Prop where
  noLeading : text.head? ≠ some ' '
  noDouble : ¬[' ', ' '] <:+: text
  noTrailing : text.getLast? ≠ some ' '

theorem spaced_word {w : Text} (h : ' ' ∉ w) : Spaced w where
  noLeading hhead := h (mem_of_mem_head? hhead)
  noDouble hdouble := h (hdouble.subset mem_cons_self)
  noTrailing hlast := h (mem_of_mem_getLast? hlast)

/-- A word, a space and spaced text. -/
theorem Spaced.join {w rest : Text} (hne : w ≠ []) (hw : ' ' ∉ w) (hrest : Spaced rest)
    (hrestNe : rest ≠ []) : Spaced (w ++ [' '] ++ rest) where
  noLeading := by
    rw [append_assoc, List.head?_append_of_ne_nil _ hne]
    exact (spaced_word hw).noLeading
  noDouble hdouble := by
    rcases pair_infix_append hdouble with h | h | ⟨-, hhead⟩
    · rcases pair_infix_append h with h | h | ⟨hlast, -⟩
      · exact (spaced_word hw).noDouble h
      · exact absurd h.length_le (by simp)
      · exact (spaced_word hw).noTrailing hlast
    · exact hrest.noDouble h
    · exact hrest.noLeading hhead
  noTrailing := by
    rw [List.getLast?_append_of_ne_nil _ hrestNe]
    exact hrest.noTrailing

theorem spaced_intercalate (h : ∀ w ∈ words, w ≠ [] ∧ ' ' ∉ w) :
    Spaced ([' '].intercalate words) := by
  induction words with
  | nil => exact ⟨by simp, by simp, by simp⟩
  | cons w words ih =>
    obtain ⟨hne, hw⟩ := h w mem_cons_self
    cases words with
    | nil => simpa using spaced_word hw
    | cons w' words =>
      have hrest := ih fun v hv => h v (mem_cons_of_mem _ hv)
      have hrestNe : [' '].intercalate (w' :: words) ≠ [] := by
        have hne' := (h w' (by simp)).1
        cases words with
        | nil => simpa using hne'
        | cons v words => simp
      rw [intercalate_cons_cons]
      exact hrest.join hne hw hrestNe

theorem spaced_normalize (s : Text) : Spaced (normalize s) := by
  refine spaced_intercalate fun w hw => ?_
  obtain ⟨hmem, hne⟩ := mem_filter.mp hw
  exact ⟨of_decide_eq_true hne, not_mem_of_mem_splitOn hmem⟩

/-! ## Accepted drafts -/

/-- What a page needs of a text. -/
structure PageText (t : Text) : Prop where
  notEmpty : t ≠ []
  clean : Clean t
  spacing : WellSpaced t

theorem pageText_of_short {t : Text} (hne : t ≠ []) (hclean : isClean t = true)
    (hlength : t.length ≤ POLICY_V1.maxWordChars)
    (h : '\n' ∉ t ∧ t.head? ≠ some ' ' ∧ ¬[' ', ' '] <:+: t ∧ t.getLast? ≠ some ' ') : PageText t :=
  ⟨hne, clean_of_isClean hclean, wellSpaced_of_short hlength h⟩

/-- What `parse_draft` leaves of a draft. -/
structure Accepted (d : PageDraft) : Prop where
  texts : ∀ t ∈ d.texts, PageText t
  small : d.tooLarge = false

theorem texts_normalized (d : PageDraft) : d.normalized.texts = d.texts.map normalize := by
  simp [PageDraft.texts, PageDraft.normalized, DraftSection.texts, map_flatMap, flatMap_map]

/-- What the passes of `parse_draft` leave, one by one. -/
theorem of_code_eq_none (h : d.code = none) :
    (∀ t ∈ d.texts, ∀ needle ∈ POLICY_V1.needles, ¬needle.1 <:+: asciiLowercase t) ∧
      (∀ t ∈ d.texts, ∀ c ∈ t, inRanges POLICY_V1.profileRanges c = true) ∧
      (∀ t ∈ d.texts, ∀ w ∈ t.splitOn ' ', w.length ≤ POLICY_V1.maxWordChars) ∧
      (∀ t ∈ d.texts, t ≠ []) ∧ d.tooLarge = false := by
  unfold PageDraft.code at h
  iterate 6 split at h <;> [cases h; skip]
  rename_i hneedle _ hchar hword hempty hlarge
  refine ⟨?_, ?_, ?_, ?_, by simpa using hlarge⟩
  · simpa using hneedle
  · simpa using hchar
  · simpa [POLICY_V1.maxWordChars] using hword
  · intro t ht heq
    exact hempty (any_eq_true.mpr ⟨t, ht, by simp [heq]⟩)

/-- The texts of a draft that `parse_draft` accepts are fit for a page, and few and short. -/
theorem accepted_of_parseDraft {fromStr : Text → Option PageDraft} {answer : Text}
    (h : parseDraft fromStr answer = .ok d) : Accepted d := by
  unfold parseDraft at h
  split at h
  · cases h
  split at h
  · cases h
  rename_i hcode
  cases h
  obtain ⟨hneedle, hchar, hword, hempty, hlarge⟩ := of_code_eq_none hcode
  refine ⟨fun t ht => ⟨hempty t ht, ⟨fun c hc => .inr (hchar t ht c hc), hneedle t ht⟩, ?_⟩, hlarge⟩
  have hspaced : Spaced t := by
    rw [texts_normalized] at ht
    obtain ⟨s, -, rfl⟩ := mem_map.mp ht
    exact spaced_normalize s
  refine ⟨⟨fun hfeed => ?_, hspaced.noLeading, hspaced.noDouble, fun word hpart hspace => ?_⟩,
    hspaced.noTrailing⟩
  · exact absurd (hchar t ht _ hfeed) (by decide)
  have hjoined : [' '].intercalate (t.splitOn ' ') = t := intercalate_splitOn ' '
  rw [← hjoined] at hpart
  rcases word_of_intercalate hspace hpart with rfl | ⟨w, hw, hpart⟩
  · exact Nat.zero_le _
  · exact hpart.length_le.trans (hword t ht w hw)

end NexusOs.PageBuilder
