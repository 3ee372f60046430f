import NexusOs.InertPage.Check
import NexusOs.InertPage.Parse.Complete
import NexusOs.InertPage.Parse.Sound
import NexusOs.InertPage.Scan.Rendered

/-!
# The check accepts exactly the canonical pages

The scan, the parser and the writer together: `check` answers a page exactly if the bytes are
the serialization of a tree of the declared grammar, of an allowed size, with allowed characters
only and without a needle.
-/

namespace NexusOs.InertPage

open Framing Utf8 POLICY_V1
open LexicalFindings (first_eq_none)

variable {page : Page} {b : Bytes}

/-- Bytes of an allowed size, of allowed characters and without a needle. -/
structure Admitted (b : Bytes) : Prop where
  size : b.length ≤ maxPageBytes
  chars : ∃ text, b = encode text ∧ ∀ c ∈ text, AllowedChar c
  needles : ∀ needle ∈ needles, ¬OccursIn (encode needle.1) b

/-- A page within a limit is written as its text. -/
theorem writePage_eq {limit : Nat} (h : (writePage page limit).length ≤ limit) :
    writePage page limit = encode page.render := by
  rcases writePage_cases page limit with heq | ⟨hlimit, -⟩
  · exact heq
  · omega

theorem serialize_eq (h : (serialize page).length ≤ maxPageBytes) :
    serialize page = encode page.render :=
  writePage_eq (Nat.le_trans h (by decide))

/-- The canonical bytes of a page of the grammar are accepted, as that page. -/
theorem check_serialize (hadmitted : Admitted (serialize page)) (h : page.WellFormed) :
    check (serialize page) = .ok page := by
  have heq := serialize_eq hadmitted.size
  have hchars : ∀ c ∈ page.render, AllowedChar c := by
    obtain ⟨text, htext, hall⟩ := hadmitted.chars
    rw [heq] at htext
    rwa [encode_injective htext]
  have hscan : scan (serialize page) = .none := by
    rw [heq]
    exact scan_render h (heq ▸ hadmitted.size) hchars (heq ▸ hadmitted.needles)
  have htext : fromUtf8 (serialize page) = .ok page.render := by rw [heq, fromUtf8_encode]
  unfold check
  rw [first_eq_none.mpr hscan, htext]
  simp only [parseDocument_render h, ne_eq, not_true_eq_false, if_false]

/-- A page of the grammar whose text is admitted is accepted. -/
theorem check_of_render (h : page.WellFormed) (hadmitted : Admitted (encode page.render)) :
    check (serialize page) = .ok page := by
  have hsize := hadmitted.size
  simp only [maxPageBytes] at hsize
  have heq : serialize page = encode page.render := by
    rcases writePage_cases page (2 ^ 64 - 1) with heq | ⟨-, hlong⟩
    · exact heq
    · omega
  exact check_serialize (heq ▸ hadmitted) h

/-- What is accepted is admitted, canonical and of the grammar. -/
theorem of_check_eq_ok (h : check b = .ok page) :
    Admitted b ∧ b = serialize page ∧ page.WellFormed := by
  unfold check at h
  split at h
  · cases h
  rename_i hfirst
  obtain ⟨hsize, hchars, hneedles⟩ := of_scan_eq_none (first_eq_none.mp hfirst)
  split at h
  · cases h
  split at h
  · cases h
  rename_i hparse
  split at h
  · cases h
  rename_i hcanonical
  cases h
  exact ⟨⟨hsize, hchars, hneedles⟩, (not_not.mp hcanonical).symm,
    wellFormed_of_parseDocument hparse⟩

theorem check_eq_ok : check b = .ok page ↔ Admitted b ∧ b = serialize page ∧ page.WellFormed := by
  constructor
  · exact of_check_eq_ok
  · rintro ⟨hadmitted, rfl, h⟩
    exact check_serialize hadmitted h

/-- `Page::new` takes exactly the trees whose serialization is checked to be them. -/
theorem new_eq_ok {lang title : Text} {header : Option Region} {main : Main}
    {footer : Option Region} :
    Page.new lang title header main footer = .ok page ↔
      page = { lang, title, header, main, footer } ∧ check (serialize page) = .ok page := by
  obtain ⟨built, hbuilt⟩ : ∃ built : Page, built = { lang, title, header, main, footer } := ⟨_, rfl⟩
  -- within the size limit, the limited writer and `serialize` write the same bytes
  have hsame : ∀ p, check (writePage built maxPageBytes) = .ok p ∨
      check (serialize built) = .ok p →
      writePage built maxPageBytes = serialize built := by
    rintro p (hok | hok)
    · have hlimited := writePage_eq (of_check_eq_ok hok).1.size
      rcases writePage_cases built (2 ^ 64 - 1) with heq | ⟨-, hlong⟩
      · rw [hlimited, serialize, heq]
      have hsize := (of_check_eq_ok hok).1.size
      rw [hlimited] at hsize
      simp only [maxPageBytes] at hsize
      omega
    · have hserialized := serialize_eq (of_check_eq_ok hok).1.size
      rcases writePage_cases built maxPageBytes with heq | ⟨-, hlong⟩
      · rw [heq, hserialized]
      · have hsize := (of_check_eq_ok hok).1.size
        rw [hserialized] at hsize
        omega
  rw [Page.new]
  simp only [← hbuilt]
  constructor
  · intro h
    split at h
    · cases h
    rename_i parsed hok
    split at h
    · cases h
    rename_i hparsed
    cases h
    rw [not_not.mp hparsed] at hok
    exact ⟨rfl, hsame _ (.inl hok) ▸ hok⟩
  · rintro ⟨rfl, hok⟩
    rw [hsame _ (.inr hok), hok]
    simp

/-- The check accepts exactly the canonical pages of the grammar; so `serialize` is injective on
accepted pages, an accepted page is read back from its bytes, and `Page::new` gives exactly the
accepted pages. -/
theorem check_accepts_exactly_canonical :
    (∀ b page, check b = .ok page ↔ Admitted b ∧ b = serialize page ∧ page.WellFormed) ∧
      (∀ b b' page page', check b = .ok page → check b' = .ok page' →
        serialize page = serialize page' → page = page') ∧
      (∀ b page, check b = .ok page → check (serialize page) = .ok page) ∧
      ∀ lang title header main footer page,
        Page.new lang title header main footer = .ok page ↔
          page = { lang, title, header, main, footer } ∧ check (serialize page) = .ok page := by
  refine ⟨fun _ _ => check_eq_ok, fun b b' page page' h h' hsame => ?_, fun b page h => ?_,
    fun _ _ _ _ _ _ => new_eq_ok⟩
  · have hb := (of_check_eq_ok h).2.1
    have hb' := (of_check_eq_ok h').2.1
    rw [hb, hsame, ← hb', h'] at h
    exact (Except.ok.inj h).symm
  · have hb := (of_check_eq_ok h).2.1
    rwa [← hb]

end NexusOs.InertPage
