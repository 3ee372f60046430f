import NexusOs.Lib.Fallible
import NexusOs.InertPage.Grammar
import NexusOs.InertPage.Parse

/-!
# The flow of a flattened text

The parser checks the spacing of a text while it reads it, with a `Flow`. A flow that has read a
text knows its last item and the length of its last word (`Flow.After`), enough to go on exactly as
long as the text is spaced as declared.
-/

namespace NexusOs.InertPage

open Utf8 Fallible List

variable {text : Text} {c : Char} {offset : Nat}

/-- The length of the word at the end of a text. -/
def lastWord (text : Text) : Nat := (text.reverse.takeWhile fun c => c ≠ ' ').length

theorem lastWord_snoc (text : Text) (c : Char) :
    lastWord (text ++ [c]) = if c = ' ' then 0 else lastWord text + 1 := by
  by_cases h : c = ' ' <;> simp [lastWord, h]

/-- A text without a space at the end of another is no longer than its last word. -/
theorem length_le_lastWord {word : Text} (hsuffix : word <:+ text) (hword : ' ' ∉ word) :
    word.length ≤ lastWord text := by
  obtain ⟨start, rfl⟩ := hsuffix
  have hall : ∀ c ∈ word.reverse, decide (c ≠ ' ') = true := by
    intro c hc
    have hne : c ≠ ' ' := by
      rintro rfl
      exact hword (mem_reverse.mp hc)
    simpa using hne
  rw [lastWord, reverse_append, takeWhile_append_of_pos hall, length_append, length_reverse]
  omega

/-- The last word is at the end of the text and has no space. -/
theorem exists_lastWord (text : Text) :
    ∃ word, word <:+ text ∧ ' ' ∉ word ∧ word.length = lastWord text := by
  refine ⟨(text.reverse.takeWhile fun c => c ≠ ' ').reverse, ?_, ?_, by simp [lastWord]⟩
  · rw [← reverse_prefix, reverse_reverse]
    exact takeWhile_prefix _
  · intro h
    simpa using mem_takeWhile_imp (mem_reverse.mp h)

/-- A text with a space at its end ends in two only if there is one before. -/
theorem double_snoc :
    [' ', ' '] <:+: text ++ [c] ↔ [' ', ' '] <:+: text ∨ c = ' ' ∧ text.getLast? = some ' ' := by
  rw [infix_concat_iff, or_comm]
  refine or_congr_right ?_
  constructor
  · rintro ⟨start, hstart⟩
    have hsplit : (start ++ [' ']) ++ [' '] = text ++ [c] := by simpa using hstart
    obtain ⟨htext, hc⟩ := append_inj' hsplit rfl
    cases hc
    exact ⟨rfl, by simp [← htext]⟩
  · rintro ⟨rfl, hlast⟩
    obtain ⟨start, rfl⟩ := List.getLast?_eq_some_iff.mp hlast
    exact ⟨start, by simp⟩

/-- No word of a longer text is too long if none was and the last one is not. -/
theorem words_snoc :
    (∀ word, word <:+: text ++ [c] → ' ' ∉ word → word.length ≤ POLICY_V1.maxWordChars) ↔
      (∀ word, word <:+: text → ' ' ∉ word → word.length ≤ POLICY_V1.maxWordChars) ∧
        (c ≠ ' ' → lastWord text + 1 ≤ POLICY_V1.maxWordChars) := by
  constructor
  · intro h
    refine ⟨fun word hpart => h word (hpart.trans (prefix_append _ _).isInfix), ?_⟩
    intro hc
    obtain ⟨word, hsuffix, hword, hlength⟩ := exists_lastWord (text ++ [c])
    have := h word hsuffix.isInfix hword
    rw [hlength, lastWord_snoc, if_neg hc] at this
    exact this
  · rintro ⟨htext, hlast⟩ word hpart hword
    rcases infix_concat_iff.mp hpart with hsuffix | hpart
    · have hlength := length_le_lastWord hsuffix hword
      rw [lastWord_snoc] at hlength
      split at hlength
      · omega
      · exact Nat.le_trans hlength (hlast ‹_›)
    · exact htext word hpart hword

/-- A text goes on with a character. -/
theorem begun_snoc :
    Begun (text ++ [c]) ↔ Begun text ∧ c ≠ '\n' ∧
      (c = ' ' → ∃ d, text.getLast? = some d ∧ d ≠ ' ') ∧
      (c ≠ ' ' → lastWord text + 1 ≤ POLICY_V1.maxWordChars) := by
  have hhead : (text ++ [c]).head? = some ' ' ↔ text.head? = some ' ' ∨ text = [] ∧ c = ' ' := by
    cases text <;> simp
  have hlast : (∃ d, text.getLast? = some d ∧ d ≠ ' ') ↔ text ≠ [] ∧ text.getLast? ≠ some ' ' := by
    cases text using List.reverseRecOn <;> simp
  constructor
  · rintro ⟨hline, hlead, hdouble, hwords⟩
    obtain ⟨hwords, hword⟩ := words_snoc.mp hwords
    rw [ne_eq, hhead, not_or] at hlead
    rw [double_snoc, not_or] at hdouble
    simp only [mem_append, mem_singleton, not_or] at hline
    refine ⟨⟨hline.1, hlead.1, hdouble.1, hwords⟩, fun h => hline.2 h.symm, ?_, hword⟩
    rintro rfl
    exact hlast.mpr ⟨fun h => hlead.2 ⟨h, rfl⟩, fun h => hdouble.2 ⟨rfl, h⟩⟩
  · rintro ⟨⟨hline, hlead, hdouble, hwords⟩, hc, hspace, hword⟩
    refine ⟨by simpa using ⟨hline, fun h => hc h.symm⟩, ?_, ?_, words_snoc.mpr ⟨hwords, hword⟩⟩
    · rw [ne_eq, hhead, not_or]
      exact ⟨hlead, fun h => (hlast.mp (hspace h.2)).1 h.1⟩
    · rw [double_snoc, not_or]
      exact ⟨hdouble, fun h => (hlast.mp (hspace h.1)).2 h.2⟩

theorem begun_nil : Begun [] := by
  refine ⟨by simp, by simp, by simp, ?_⟩
  intro word hpart _
  simp [infix_nil.mp hpart]

/-- The beginning of a text that is spaced so far is spaced so far. -/
theorem Begun.of_append {rest : Text} (h : Begun (text ++ rest)) : Begun text := by
  induction rest using List.reverseRecOn with
  | nil => simpa using h
  | append_singleton rest c ih =>
    rw [← append_assoc] at h
    exact ih (begun_snoc.mp h).1

/-! ## Flows -/

/-- The flow has read this text, each `br` as a space. -/
structure Flow.After (flow : Flow) (text : Text) : Prop where
  start : flow.prev = .start ↔ text = []
  char : flow.prev = .char ↔ ∃ c, text.getLast? = some c ∧ c ≠ ' '
  word : flow.word = lastWord text

theorem after_new : Flow.new.After [] := by constructor <;> simp [Flow.new, lastWord]

variable {flow flow' : Flow}

section

variable (h : flow.After text)

include h

/-- What a flow that takes a character has read; the text may go on with it. -/
theorem Flow.After.of_char (hbegun : Begun text) (hchar : flow.char c offset = .ok flow') :
    flow'.After (text ++ [c]) ∧ Begun (text ++ [c]) := by
  rw [begun_snoc]
  obtain ⟨hline, hchar⟩ := ite_error_eq_ok.mp hchar
  split at hchar
  · rename_i hspace
    obtain ⟨hprev, ⟨⟩⟩ := ite_error_eq_ok.mp hchar
    rw [not_not] at hprev
    refine ⟨⟨by simp, by simp [hspace], by simp [lastWord_snoc, hspace]⟩, hbegun, hline, ?_, ?_⟩
    · exact fun _ => h.char.mp hprev
    · exact fun hc => absurd hspace hc
  · rename_i hspace
    obtain ⟨hword, ⟨⟩⟩ := ite_error_eq_ok.mp hchar
    refine ⟨⟨by simp, by simp [hspace], by simp [lastWord_snoc, hspace, h.word]⟩, hbegun, hline,
      fun hc => absurd hc hspace, fun _ => ?_⟩
    rw [← h.word]
    omega

/-- A flow takes a character with which the text may go on. -/
theorem Flow.After.takes_char (hbegun : Begun (text ++ [c])) (offset : Nat) :
    ∃ flow', flow.char c offset = .ok flow' ∧ flow'.After (text ++ [c]) ∧
      flow'.chars = flow.chars + 1 := by
  obtain ⟨hbegun, hline, hspace, hword⟩ := begun_snoc.mp hbegun
  suffices hok : ∃ flow', flow.char c offset = .ok flow' ∧ flow'.chars = flow.chars + 1 by
    obtain ⟨flow', hchar, hchars⟩ := hok
    exact ⟨flow', hchar, (h.of_char hbegun hchar).1, hchars⟩
  by_cases hc : c = ' '
  · have hprev := h.char.mpr (hspace hc)
    exact ⟨⟨.space, 0, flow.chars + 1⟩, by simp [Flow.char, hc, hprev], rfl⟩
  have hword := hword hc
  rw [← h.word] at hword
  exact ⟨⟨.char, flow.word + 1, flow.chars + 1⟩,
    by simp [Flow.char, hc, hline, Nat.not_lt.mpr hword], rfl⟩

/-- A `br` is taken as a space is. -/
theorem Flow.After.of_br (hbegun : Begun text) (hbr : flow.br offset = .ok flow') :
    flow'.After (text ++ [' ']) ∧ Begun (text ++ [' ']) := by
  rw [begun_snoc]
  obtain ⟨hprev, ⟨⟩⟩ := ite_error_eq_ok.mp hbr
  rw [not_not] at hprev
  refine ⟨⟨by simp, by simp, by simp [lastWord_snoc]⟩, hbegun, by decide, ?_, ?_⟩
  · exact fun _ => h.char.mp hprev
  · exact fun hc => absurd rfl hc

theorem Flow.After.takes_br (hbegun : Begun (text ++ [' '])) (offset : Nat) :
    ∃ flow', flow.br offset = .ok flow' ∧ flow'.After (text ++ [' ']) := by
  obtain ⟨hbegun, -, hspace, -⟩ := begun_snoc.mp hbegun
  have hprev := h.char.mpr (hspace rfl)
  have hbr : flow.br offset = .ok { flow with prev := .br, word := 0 } := by simp [Flow.br, hprev]
  exact ⟨_, hbr, (h.of_br hbegun hbr).1⟩

/-- A flow may end exactly where no space is at the end. -/
theorem Flow.After.finish_eq_ok (offset : Nat) :
    flow.finish offset = .ok () ↔ text.getLast? ≠ some ' ' := by
  have hchar := h.char
  have hstart := h.start
  cases text using List.reverseRecOn with
  | nil => simp_all [Flow.finish]
  | append_singleton text c => cases hprev : flow.prev <;> simp_all [Flow.finish]

end

/-- A short text is spaced well if it is at its ends and between its words. -/
theorem wellSpaced_of_short (hlength : text.length ≤ POLICY_V1.maxWordChars)
    (h : '\n' ∉ text ∧ text.head? ≠ some ' ' ∧ ¬[' ', ' '] <:+: text ∧ text.getLast? ≠ some ' ') :
    WellSpaced text where
  noLineFeed := h.1
  noLeading := h.2.1
  noDouble := h.2.2.1
  words _ hword _ := hword.length_le.trans hlength
  noTrailing := h.2.2.2

end NexusOs.InertPage
