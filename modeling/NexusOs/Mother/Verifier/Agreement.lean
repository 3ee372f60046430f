import NexusOs.InertPage.Clean
import NexusOs.Mother.Verifier.Reader

/-!
# The two readings of an accepted page agree

On a page the kernel accepted, the second reader's findings (V4) follow from the kernel's facts
report (V3): the name and the hours are found by both or by neither, and a phone that is there,
with no foreign number on the page, stands unglued. So a page whose verdict passed passes V0
to V4.
-/

namespace NexusOs.Verifier

open Framing Utf8 InertPage POLICY_V1 Char
open List hiding flatten

variable {part pre post : Text} {b : Bytes}

theorem flattenLoop_text (stack : List (Inlines × Option Nat)) (text : Text)
    (spans : List (Nat × Nat)) :
    (flattenLoop stack text spans).1 = text ++ stack.flatMap fun frame => frame.1.flatten := by
  fun_induction flattenLoop stack text spans with
  | case1 text spans => simp
  | case2 stack text spans ih | case3 k stack text spans ih | case4 t rest top stack text spans ih
  | case5 rest top stack text spans ih | case6 tag attrs inlines rest top stack text spans ih =>
    simpa [Inlines.flatten] using ih

/-- The element text of a leaf is its flattened text. -/
theorem text_eq_flatten (l : Leaf) : l.text = l.inlines.flatten := by
  rw [Leaf.text, flatten, flattenLoop_text]
  simp

/-- The kernel's leaves, as they are shown. -/
theorem leafTexts_shown (page : Page) :
    (leafTexts page).map (fun l => (l.tag, l.text)) = page.leaves.map shownLeaf := by
  rw [leafTexts, map_map]
  refine map_congr_left fun leaf _ => ?_
  exact congrArg (Prod.mk leaf.1) (text_eq_flatten leaf.2)

/-! ## Names and hours -/

section

variable {text : VisibleText} {page : Page} {facts : ApprovedFacts}

/-- The reader read the page's title and leaves. -/
structure Agrees (text : VisibleText) (page : Page) : Prop where
  title : text.title = page.title
  lines : text.lines.map VisibleLine.shown = (leafTexts page).map fun l => (l.tag, l.text)

/-- The texts of the leaves of one tag. -/
theorem Agrees.filter (h : Agrees text page) (t : LeafTag) :
    (text.lines.filter fun l => l.tag = t).map VisibleLine.text =
      ((leafTexts page).filter fun l => l.tag = t.tag).map LeafText.text := by
  have hlines := congrArg (fun leaves => (leaves.filter fun l => l.1 = t.tag).map Prod.snd) h.lines
  simp only [filter_map, map_map] at hlines
  have htag : (fun l : VisibleLine => decide (l.tag = t)) =
      (fun l => decide (l.1 = t.tag)) ∘ VisibleLine.shown := by
    funext l
    simp [VisibleLine.shown, LeafTag.tag_injective.eq_iff]
  rw [htag]
  exact hlines

/-- V4 finds the name exactly if V3 finds it as the heading and as the title. -/
theorem Agrees.name (h : Agrees text page) :
    (visibleFacts text facts).name =
      ((factsReport page facts).nameHeading && (factsReport page facts).nameTitle) := by
  have hsame : (text.lines.filter fun l => l.tag = .h1).map VisibleLine.text =
      ((leafTexts page).filter fun l => l.tag = .h1).map LeafText.text := h.filter .h1
  simp only [visibleFacts, factsReport, h.title]
  generalize text.lines.filter (fun l => decide (l.tag = .h1)) = lines at hsame ⊢
  generalize (leafTexts page).filter (fun l => decide (l.tag = .h1)) = leaves at hsame ⊢
  match lines, leaves with
  | [], [] => rfl
  | [l], [l'] =>
    have htext : l.text = l'.text := by simpa using hsame
    simp [htext]
  | _ :: _ :: _, _ :: _ :: _ => rfl
  | [], _ :: _ => cases hsame
  | _ :: _, [] => cases hsame
  | [_], _ :: _ :: _ => simp at hsame
  | _ :: _ :: _, [_] => simp at hsame

/-- A leaf was read exactly if the kernel has it. -/
theorem Agrees.leaf_iff (h : Agrees text page) {t : LeafTag} {shown : Text} :
    (∃ l ∈ text.lines, l.tag = t ∧ l.text = shown) ↔
      ∃ l ∈ leafTexts page, l.tag = t.tag ∧ l.text = shown := by
  have hmem : (t.tag, shown) ∈ text.lines.map VisibleLine.shown ↔
      (t.tag, shown) ∈ (leafTexts page).map fun l => (l.tag, l.text) := by rw [h.lines]
  simpa [VisibleLine.shown, LeafTag.tag_injective.eq_iff] using hmem

/-- V4 finds each hours line exactly if V3 does. -/
theorem Agrees.hours (h : Agrees text page) :
    (visibleFacts text facts).hours = (factsReport page facts).hours := by
  refine map_congr_left fun line _ => ?_
  rw [Bool.eq_iff_iff]
  simp only [any_eq_true, Bool.and_eq_true, Bool.or_eq_true, decide_eq_true_eq, or_and_right,
    and_or_left, exists_or]
  exact or_congr h.leaf_iff h.leaf_iff

end

/-! ## The phone -/

/-- A text that stands somewhere without a digit at its sides is shown unglued. -/
theorem showsUngluedFrom_append {needle pre post : Text} (hne : needle ≠ [])
    {before : Option Char} (hbefore : ((pre.getLast?).or before).any isDigit = false)
    (hafter : post.head?.any isDigit = false) :
    showsUngluedFrom needle before (pre ++ needle ++ post) = true := by
  induction pre generalizing before with
  | nil =>
    obtain ⟨c, rest, rfl⟩ := exists_cons_of_ne_nil hne
    rw [nil_append, cons_append, showsUngluedFrom, ← cons_append, drop_left, hafter]
    simpa using .inl hbefore
  | cons d pre ih =>
    rw [cons_append, cons_append, showsUngluedFrom, Bool.or_eq_true]
    refine .inr (ih ?_)
    cases pre with
    | nil => simpa using hbefore
    | cons d pre => simpa [List.getLast?_cons] using hbefore

/-- A character a token goes on over. -/
def TokenChar (c : Char) : Prop := c.isDigit = true ∨ c ∈ fc4Separators

/-- Characters a token goes on over give their digits to it. -/
theorem tokensLoop_append {found : List Text} {digits : Text} (hpart : ∀ c ∈ part, TokenChar c)
    (rest : Text) :
    tokensLoop found digits (part ++ rest) =
      tokensLoop found (digits ++ part.filter isDigit) rest := by
  induction part generalizing digits with
  | nil => simp
  | cons c part ih =>
    have ih : ∀ digits, tokensLoop found digits (part ++ rest) =
        tokensLoop found (digits ++ part.filter isDigit) rest :=
      fun _ => ih fun c hc => hpart c (by simp [hc])
    rw [cons_append, tokensLoop]
    by_cases hdigit : c.isDigit = true
    · simp [hdigit, ih]
    · have hsep := (hpart c (by simp)).resolve_left hdigit
      simp [hdigit, hsep, ih]

/-- What was found stays found, and a token under way that is long enough is found. -/
theorem tokensLoop_found (found : List Text) (digits rest : Text) :
    (∀ token ∈ found, token ∈ tokensLoop found digits rest) ∧
      (fc4Threshold ≤ digits.length → ∃ more, digits ++ more ∈ tokensLoop found digits rest) := by
  have hflush : ∀ (found : List Text) (digits : Text),
      (∀ token ∈ found, token ∈ flushDigits found digits) ∧
        (fc4Threshold ≤ digits.length → digits ∈ flushDigits found digits) := by
    intro found digits
    unfold flushDigits
    constructor
    · intro token htoken
      split <;> simp [htoken]
    · intro hlength
      simp [hlength]
  induction rest generalizing found digits with
  | nil =>
    obtain ⟨hkeep, hfound⟩ := hflush found digits
    exact ⟨hkeep, fun hlength => ⟨[], by simpa [tokensLoop] using hfound hlength⟩⟩
  | cons c rest ih =>
    rw [tokensLoop]
    split
    · obtain ⟨hkeep, hfound⟩ := ih found (digits ++ [c])
      refine ⟨hkeep, fun hlength => ?_⟩
      obtain ⟨more, hmore⟩ := hfound (by rw [length_append]; omega)
      exact ⟨c :: more, by simpa using hmore⟩
    · split
      · obtain ⟨hkeep, hfound⟩ := hflush found digits
        obtain ⟨hkeep', -⟩ := ih (flushDigits found digits) []
        exact ⟨fun token htoken => hkeep' token (hkeep token htoken),
          fun hlength => ⟨[], by simpa using hkeep' digits (hfound hlength)⟩⟩
      · exact ih found digits

/-- The tokens are looked for from every place on. -/
theorem tokensLoop_skip (pre : Text) (found : List Text) (digits : Text) :
    ∃ found' digits', ∀ rest,
      tokensLoop found digits (pre ++ rest) = tokensLoop found' digits' rest := by
  induction pre generalizing found digits with
  | nil => exact ⟨found, digits, fun _ => rfl⟩
  | cons c pre ih =>
    by_cases hdigit : c.isDigit = true
    · obtain ⟨found', digits', h⟩ := ih found (digits ++ [c])
      exact ⟨found', digits', fun rest => by simp [tokensLoop, hdigit, h]⟩
    by_cases hsep : c ∈ fc4Separators
    · obtain ⟨found', digits', h⟩ := ih found digits
      exact ⟨found', digits', fun rest => by simp [tokensLoop, hdigit, hsep, h]⟩
    · obtain ⟨found', digits', h⟩ := ih (flushDigits found digits) []
      exact ⟨found', digits', fun rest => by simp [tokensLoop, hdigit, hsep, h]⟩

/-- A part with enough digits, without a break, is in a token. -/
theorem exists_token (pre post : Text) (hpart : ∀ c ∈ part, TokenChar c)
    (hlength : fc4Threshold ≤ (part.filter isDigit).length) :
    ∃ start more, start ++ part.filter isDigit ++ more ∈
      phoneLikeTokens (pre ++ (part ++ post)) := by
  obtain ⟨found, digits, hskip⟩ := tokensLoop_skip pre [] []
  rw [phoneLikeTokens, hskip, tokensLoop_append hpart]
  obtain ⟨more, hmore⟩ := (tokensLoop_found found (digits ++ part.filter isDigit) post).2
    (by rw [length_append]; omega)
  exact ⟨digits, more, hmore⟩

theorem of_phoneDigits? {k run digits n : Nat} {phone : Text}
    (h : phoneDigits? k run digits phone = some n) :
    n = digits + (phone.filter isDigit).length ∧ ∀ c ∈ phone, TokenChar c := by
  have hchars : (phoneChars.all fun c => c.isDigit || c ∈ fc4Separators) = true := by decide
  have hchar : ∀ c ∈ phoneChars, TokenChar c := by
    intro c hc
    simpa [TokenChar] using all_eq_true.mp hchars c hc
  induction phone generalizing k run digits with
  | nil =>
    cases h
    simp
  | cons c phone ih =>
    rw [phoneDigits?] at h
    split at h
    · cases h
    rename_i hallowed
    have hc : TokenChar c := hchar c (not_not.mp (not_or.mp hallowed).1)
    split at h
    · rename_i hdigit
      obtain ⟨hn, hall⟩ := ih h
      refine ⟨?_, by simpa using ⟨hc, hall⟩⟩
      rw [filter_cons_of_pos hdigit, length_cons]
      omega
    · rename_i hdigit
      split at h
      · cases h
      · obtain ⟨hn, hall⟩ := ih h
        exact ⟨by rw [hn, filter_cons_of_neg hdigit], by simpa using ⟨hc, hall⟩⟩

/-- An approved phone has enough digits, and nothing a token breaks at. -/
theorem approved_phone (facts : ApprovedFacts) :
    fc4Threshold ≤ (facts.phone.filter isDigit).length ∧ ∀ c ∈ facts.phone, TokenChar c := by
  have hvalid := facts.valid
  unfold factsError at hvalid
  split at hvalid
  · cases hvalid
  split at hvalid
  · cases hvalid
  rename_i hshape
  rw [Bool.not_eq_true', Bool.not_eq_false] at hshape
  unfold phoneShapeOk at hshape
  split at hshape
  · cases hshape
  rename_i digits hdigits
  obtain ⟨hn, hchars⟩ := of_phoneDigits? hdigits
  simp only [Bool.and_eq_true, decide_eq_true_eq] at hshape
  refine ⟨?_, hchars⟩
  have hmin : phoneMinDigits = fc4Threshold := rfl
  omega

variable {facts : ApprovedFacts} {page : Page}

/-- With no foreign number, no digit stands before or after the phone in one token with it. -/
theorem no_digit_beside {a b : Text}
    (hforeign : ∀ token ∈ phoneLikeTokens (pre ++ ((a ++ facts.phone ++ b) ++ post)),
      token = facts.phone.filter isDigit)
    (hbeside : (a ++ b).all isDigit = true) : a = [] ∧ b = [] := by
  obtain ⟨hdigits, hchars⟩ := approved_phone facts
  have hbeside := all_eq_true.mp hbeside
  have hpart : ∀ c ∈ a ++ facts.phone ++ b, TokenChar c := by
    intro c hc
    simp only [mem_append] at hc
    rcases hc with (hc | hc) | hc
    · exact .inl (hbeside c (by simp [hc]))
    · exact hchars c hc
    · exact .inl (hbeside c (by simp [hc]))
  have hfilter : (a ++ facts.phone ++ b).filter isDigit =
      a ++ facts.phone.filter isDigit ++ b := by
    have ha : a.filter isDigit = a := filter_eq_self.mpr fun c hc => hbeside c (by simp [hc])
    have hb : b.filter isDigit = b := filter_eq_self.mpr fun c hc => hbeside c (by simp [hc])
    rw [filter_append, filter_append, ha, hb]
  have hlong : fc4Threshold ≤ ((a ++ facts.phone ++ b).filter isDigit).length := by
    rw [hfilter, length_append, length_append]
    omega
  obtain ⟨start, more, hmem⟩ := exists_token pre post hpart hlong
  have hlength := congrArg List.length (hforeign _ hmem)
  rw [hfilter] at hlength
  simp only [length_append] at hlength
  exact ⟨length_eq_zero_iff.mp (by omega), length_eq_zero_iff.mp (by omega)⟩

/-- A phone that is there, with no foreign number in the text, stands unglued. -/
theorem showsUnglued_phone
    (hforeign : ∀ token ∈ phoneLikeTokens (pre ++ facts.phone ++ post), token =
      facts.phone.filter isDigit) :
    showsUnglued (pre ++ facts.phone ++ post) facts.phone = true := by
  have hne : facts.phone ≠ [] := by
    intro hnil
    have hdigits := (approved_phone facts).1
    rw [hnil, filter_nil] at hdigits
    exact absurd hdigits (by decide)
  refine showsUngluedFrom_append hne ?_ ?_
  · rw [Option.or_none]
    by_contra hlast
    rw [Bool.not_eq_false, Option.any_eq_true] at hlast
    obtain ⟨d, hd, hdigit⟩ := hlast
    obtain ⟨start, rfl⟩ := List.getLast?_eq_some_iff.mp hd
    have htext : start ++ [d] ++ facts.phone ++ post =
        start ++ (([d] ++ facts.phone ++ []) ++ post) := by simp
    rw [htext] at hforeign
    cases (no_digit_beside hforeign (by simpa using hdigit)).1
  · by_contra hfirst
    rw [Bool.not_eq_false, Option.any_eq_true] at hfirst
    obtain ⟨d, hd, hdigit⟩ := hfirst
    obtain ⟨rest, rfl⟩ := List.head?_eq_some_iff.mp hd
    have htext : pre ++ facts.phone ++ d :: rest =
        pre ++ (([] ++ facts.phone ++ [d]) ++ rest) := by simp
    rw [htext] at hforeign
    cases (no_digit_beside hforeign (by simpa using hdigit)).2

/-- V4 finds a phone that V3 finds, if V3 finds no foreign number. -/
theorem Agrees.phone {text : VisibleText}
    (h : Agrees text page) (hphone : (factsReport page facts).phone = true)
    (hforeign : (factsReport page facts).noForeignNumber = true) :
    (visibleFacts text facts).phone = true := by
  simp only [factsReport, any_eq_true, Bool.or_eq_true, decide_eq_true_eq] at hphone
  obtain ⟨l, hl, hplace⟩ := hphone
  -- the phone is the leaf's text, or a span's, so it stands somewhere in the leaf's text
  obtain ⟨pre, post, htext⟩ : ∃ pre post, l.text = pre ++ facts.phone ++ post := by
    rcases hplace with heq | ⟨range, -, hslice⟩
    · exact ⟨[], [], by simp [heq]⟩
    · refine ⟨l.text.take range.1, (l.text.drop range.1).drop (range.2 - range.1), ?_⟩
      rw [← hslice, slice, append_assoc, take_append_drop, take_append_drop]
  have htokens : ∀ token ∈ phoneLikeTokens l.text, token = facts.phone.filter isDigit := by
    simp only [factsReport, all_eq_true, decide_eq_true_eq] at hforeign
    exact hforeign l.text (mem_cons_of_mem _ (mem_map_of_mem hl))
  obtain ⟨line, hline, hshown⟩ : ∃ line ∈ text.lines, line.shown = (l.tag, l.text) := by
    rw [← mem_map, h.lines]
    exact mem_map_of_mem hl
  simp only [visibleFacts, any_eq_true]
  refine ⟨line, hline, ?_⟩
  have hlineText : line.text = l.text := congrArg Prod.snd hshown
  rw [hlineText, htext]
  rw [htext] at htokens
  exact showsUnglued_phone htokens

/-! ## The verdict and the checks -/

/-- On an accepted page the reader reads the kernel's page. -/
theorem agrees_of_check (h : check b = .ok page) :
    ∃ text, readVisibleText b = some text ∧ Agrees text page := by
  obtain ⟨hadmitted, rfl, hformed⟩ := of_check_eq_ok h
  obtain ⟨text, hread, htitle, hlines⟩ := readVisibleText_render hformed
  refine ⟨text, ?_, htitle, hlines.trans (leafTexts_shown page).symm⟩
  rw [serialize_eq hadmitted.size, hread]

theorem findIdx?_not_eq_none {found : List Bool} :
    (found.findIdx? fun ok => !ok) = none ↔ ∀ ok ∈ found, ok = true := by
  simp

/-- What a facts check without an error says. -/
theorem firstError_eq_ok {report : FactsReport} :
    report.firstError = .ok () ↔ report.nameHeading = true ∧ report.nameTitle = true ∧
      (∀ ok ∈ report.hours, ok = true) ∧ report.phone = true ∧
      report.noForeignNumber = true := by
  obtain ⟨heading, title, hours, phone, foreign⟩ := report
  rw [← findIdx?_not_eq_none]
  simp only [FactsReport.firstError]
  generalize hours.findIdx? (fun ok => !ok) = missing
  cases heading <;> cases title <;> cases missing <;> cases phone <;> cases foreign <;> simp

/-- What a visible report without an error says. -/
theorem visible_firstError_eq_none {report : VisibleReport} :
    report.firstError = none ↔ report.supported = true ∧ report.name = true ∧
      (∀ ok ∈ report.hours, ok = true) ∧ report.phone = true := by
  obtain ⟨supported, name, hours, phone⟩ := report
  rw [← findIdx?_not_eq_none]
  simp only [VisibleReport.firstError]
  generalize hours.findIdx? (fun ok => !ok) = missing
  cases supported <;> cases name <;> cases missing <;> cases phone <;> simp

/-- The receipt of a publication of these bytes under the policy. -/
def receiptOf (d : Digests) (b : Bytes) : Receipt where
  sha256 := d.sha256 b
  bytes := b.length
  policyHash := d.policyHash

/-- The gates let an accepted page through, with its own receipt. -/
theorem gates_of_check (d : Digests) (h : check b = .ok page) :
    gates d b (some (receiptOf d b)) = .ok page := by
  have hsize := (of_check_eq_ok h).1.size
  simp only [maxPageBytes] at hsize
  have hbytes : min b.length (2 ^ 64 - 1) = b.length := Nat.min_eq_left (by omega)
  have hpublished : ¬(d.sha256 b ≠ (receiptOf d b).sha256 ∨
      min b.length (2 ^ 64 - 1) ≠ (receiptOf d b).bytes) := by
    rintro (hne | hne)
    · exact hne rfl
    · exact hne hbytes
  have hpolicy : ¬d.policyHash ≠ (receiptOf d b).policyHash := fun hne => hne rfl
  simp only [gates, h]
  rw [if_neg hpublished, if_neg hpolicy]

/-- Once the gates are passed and the facts check found nothing missing, V4 passes too. -/
theorem visibleReport_of_checkFacts (h : check b = .ok page)
    (hfacts : checkFacts page facts = .ok ()) : (visibleReport b facts).firstError = none := by
  obtain ⟨text, hread, hagrees⟩ := agrees_of_check h
  obtain ⟨hheading, htitle, hhours, hphone, hforeign⟩ := firstError_eq_ok.mp hfacts
  rw [visibleReport, hread, visible_firstError_eq_none]
  refine ⟨rfl, ?_, ?_, hagrees.phone hphone hforeign⟩
  · rw [hagrees.name, hheading, htitle]
    rfl
  · rw [hagrees.hours]
    exact hhours

/-- V0 to V4 pass on an accepted page whose facts are all there, with its own receipt. -/
theorem checks_of_checkFacts (d : Digests) (l : Letters)
    (h : check b = .ok page) (hfacts : checkFacts page facts = .ok ()) {id : CheckId}
    (hid : id ≠ .v5) : (verifyPage d l b facts (some (receiptOf d b))).checks id = .pass := by
  rw [verifyPage, gates_of_check d h]
  cases id with
  | v0 | v1 | v2 => rfl
  | v3 =>
    have hv3 : (InertPage.factsReport page facts).firstError = .ok () := hfacts
    simp [hv3]
  | v4 => simp [visibleReport_of_checkFacts h hfacts, CheckResult.of]
  | v5 => exact absurd rfl hid

theorem checkFacts_of_passed {d : Digests}
    (h : (PageVerdict.evaluate d b (some facts)).passed = true) :
    ∃ page, check b = .ok page ∧ checkFacts page facts = .ok () := by
  have h : (PageVerdict.evaluate d b (some facts)).outcome = .passed := of_decide_eq_true h
  simp only [PageVerdict.evaluate] at h
  cases hcheck : check b with
  | error refusal =>
    rw [hcheck] at h
    cases h
  | ok page =>
    refine ⟨page, rfl, ?_⟩
    rw [hcheck] at h
    cases hfacts : checkFacts page facts with
    | error code => simp [hfacts] at h
    | ok u => rfl

/-- The second reader agrees with the kernel's parser on every accepted page; so V4's findings
follow from V3's, and a page whose verdict passed passes V0 to V4 with its own receipt. -/
theorem reader_agrees_with_kernel {b : Bytes} (h : check b = .ok page) :
    ∃ text, readVisibleText b = some text ∧ text.title = page.title ∧
      text.lines.map (fun l => (l.tag.tag, l.text)) =
        page.leaves.map (fun leaf => (leaf.1, leaf.2.text)) ∧
      ∀ facts : ApprovedFacts,
        visibleReport b facts = visibleFacts text facts ∧
        ((visibleFacts text facts).name = true ↔
          (factsReport page facts).nameHeading = true ∧ (factsReport page facts).nameTitle = true) ∧
        (visibleFacts text facts).hours = (factsReport page facts).hours ∧
        ((factsReport page facts).phone = true →
          (factsReport page facts).noForeignNumber = true →
          (visibleFacts text facts).phone = true) ∧
        ∀ (d : Digests) (l : Letters),
          (PageVerdict.evaluate d b (some facts)).passed = true →
          ∀ id ∈ [CheckId.v0, .v1, .v2, .v3, .v4],
            (verifyPage d l b facts (some (receiptOf d b))).checks id = .pass := by
  obtain ⟨text, hread, hagrees⟩ := agrees_of_check h
  refine ⟨text, hread, hagrees.title, ?_, fun facts => ⟨?_, ?_, hagrees.hours,
    fun hphone hforeign => hagrees.phone hphone hforeign, fun d l hpassed id hid => ?_⟩⟩
  · refine hagrees.lines.trans ?_
    rw [leafTexts, map_map]
    rfl
  · rw [visibleReport, hread]
  · rw [hagrees.name, Bool.and_eq_true]
  obtain ⟨page', hcheck, hfacts⟩ := checkFacts_of_passed hpassed
  refine checks_of_checkFacts d l hcheck hfacts ?_
  rintro rfl
  simp at hid

/-- A small page: a name, an hours line, and a phone in a span. -/
def samplePage : Page where
  lang := "en"
  title := "Cafe"
  header := none
  main :=
    { attrs := Attrs.none
      items :=
        [.block (.leaf .h1 ⟨Attrs.none, .text "Cafe" .nil⟩),
          .block (.leaf .p ⟨Attrs.none, .text "Mo-Fr 9-17" .nil⟩),
          .block (.leaf .p ⟨Attrs.none, .text "Phone: "
            (.span .strong Attrs.none (.text "555-0100" .nil) .nil)⟩)] }
  footer := none

theorem samplePage_wellFormed : samplePage.WellFormed where
  lang := .inl ⟨'e', 'n', by decide⟩
  title := wellSpaced_of_short (by decide) (by decide)
  titleChars := by decide
  header := by simp [samplePage]
  main := by
    refine ⟨by decide, fun item hitem => ?_⟩
    simp only [samplePage, mem_cons, not_mem_nil, or_false] at hitem
    rcases hitem with rfl | rfl | rfl
    · exact ⟨by decide, by simp [Inlines.Formed, Inlines.startsWithText],
        wellSpaced_of_short (by decide) (by decide)⟩
    · exact ⟨by decide, by simp [Inlines.Formed, Inlines.startsWithText],
        wellSpaced_of_short (by decide) (by decide)⟩
    · exact ⟨by decide, by simp [Inlines.Formed, Inlines.startsWithText],
        wellSpaced_of_short (by decide) (by decide)⟩
  footer := by simp [samplePage]
  ids := by
    have hnone : samplePage.extent.ids = [] := by decide
    simp [hnone]
  uniqueIds := by decide
  elements := by decide
  depth := by decide

theorem samplePage_accepted : check (serialize samplePage) = .ok samplePage := by
  refine check_of_texts samplePage_wellFormed ?_ (clean_of_isClean (by decide)) ?_
  · have hrender := size_render samplePage
    have hlang : size samplePage.lang = 2 := by decide
    have htitle : samplePage.title.length = 4 := by decide
    have hbody : size samplePage.renderBody ≤ 200 := by decide
    have hmax : maxPageBytes = 65536 := rfl
    rw [length_encode]
    omega
  · have htexts : (samplePage.leaves.all fun leaf => leaf.2.inlines.texts.all isClean) = true := by
      decide
    intro leaf hleaf t ht
    exact clean_of_isClean (all_eq_true.mp (all_eq_true.mp htexts leaf hleaf) t ht)

/-- The facts on the small page. -/
def sampleFacts : ApprovedFacts where
  name := "Cafe"
  hours := ["Mo-Fr 9-17"]
  phone := "555-0100"
  valid := by decide

theorem leafTexts_samplePage : leafTexts samplePage =
    [⟨.h1, "Cafe", []⟩, ⟨.p, "Mo-Fr 9-17", []⟩, ⟨.p, "Phone: 555-0100", [(7, 15)]⟩] := by
  simp [leafTexts, samplePage, Page.leaves, regionLeaves, MainItem.leaves, Block.leaves,
    TextTag.tag, leafText, flatten, flattenLoop]

/-- The small page shows its facts, and no other number. -/
theorem factsReport_samplePage :
    factsReport samplePage sampleFacts = ⟨true, true, [true], true, true⟩ := by
  simp only [factsReport, leafTexts_samplePage, FactsReport.mk.injEq]
  decide

/-- The reader reads the small page, with its title and its lines, finds its facts, and the page
passes V0 to V4. -/
theorem sample_page_is_read : ∃ text,
    readVisibleText (serialize samplePage) = some text ∧ text.title = "Cafe" ∧
      text.lines.length = 3 ∧ (visibleFacts text sampleFacts).name = true ∧
      (visibleFacts text sampleFacts).hours = [true] ∧
      (visibleFacts text sampleFacts).phone = true ∧
      ∀ (d : Digests) (l : Letters), ∀ id ∈ [CheckId.v0, .v1, .v2, .v3, .v4],
        (verifyPage d l (serialize samplePage) sampleFacts
          (some (receiptOf d (serialize samplePage)))).checks id = .pass := by
  obtain ⟨text, hread, htitle, hlines, hfacts⟩ := reader_agrees_with_kernel samplePage_accepted
  obtain ⟨-, hname, hhours, hphone, hverdict⟩ := hfacts sampleFacts
  rw [factsReport_samplePage] at hname hhours hphone
  have hlength := congrArg List.length hlines
  rw [length_map] at hlength
  refine ⟨text, hread, htitle, hlength, hname.mpr ⟨rfl, rfl⟩, hhours, hphone rfl rfl,
    fun d l => hverdict d l ?_⟩
  have hcheck : checkFacts samplePage sampleFacts = .ok () := by
    rw [checkFacts, factsReport_samplePage]
    rfl
  simp [PageVerdict.evaluate, PageVerdict.passed, samplePage_accepted, hcheck]

end NexusOs.Verifier
