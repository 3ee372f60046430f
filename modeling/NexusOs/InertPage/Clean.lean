import NexusOs.InertPage.Canonical
import NexusOs.InertPage.Facts

/-!
# Pages of clean texts are admitted

A needle of the policy cannot reach over a tag: if no text node of a page of the grammar has a
needle or a forbidden character, neither has its canonical text. So such a page is accepted as soon
as it is small enough (`check_of_texts`).
-/

namespace NexusOs.InertPage

open Framing Utf8 POLICY_V1 List

/-! ## Needles in texts and in bytes -/

variable {α : Type} {c : Char} {b a text s : Text} {attrs : Attrs} {page : Page} (tag : Tag)

/-- Something without `c` that stands in `a ++ c :: b` stands in `a` or in `b`. -/
theorem infix_of_separated {l a b : List α} {c : α} (hc : c ∉ l) (h : l <:+: a ++ c :: b) :
    l <:+: a ∨ l <:+: b := by
  rcases infix_append_iff.mp h with h | h | ⟨front, back, rfl, hfront, hback⟩
  · exact .inl h
  · rcases infix_cons_iff.mp h with h | h
    · rcases prefix_cons_iff.mp h with rfl | ⟨rest, rfl, -⟩
      · exact .inl nil_infix
      · exact absurd mem_cons_self hc
    · exact .inr h
  · rcases prefix_cons_iff.mp hback with rfl | ⟨rest, rfl, -⟩
    · exact .inl (by simpa using hfront.isInfix)
    · exact absurd (by simp) hc

/-- `u8::to_ascii_lowercase` is `char::to_ascii_lowercase` on ASCII. -/
theorem encode_toLower_ascii : ∀ n < 128,
    String.utf8EncodeChar (Char.ofNat n).toLower = [lowercase (UInt8.ofNat n)] := by decide

theorem toLower_of_high (h : 128 ≤ c.toNat) : c.toLower = c := by
  have hz : ¬c.val ≤ 'Z'.val := by
    rw [UInt32.le_iff_toNat_le]
    have hval : c.val.toNat = c.toNat := rfl
    have hzval : 'Z'.val.toNat = 90 := rfl
    omega
  exact dif_neg fun h => hz h.2

theorem lowercase_of_high {b : UInt8} (h : 128 ≤ b.toNat) : lowercase b = b := by
  have hz : ¬b ≤ byte 'Z' := by
    rw [UInt8.le_iff_toNat_le]
    have hzval : (byte 'Z').toNat = 90 := rfl
    omega
  simp [lowercase, hz]

/-- Lower case is byte by byte: the bytes of other characters are no letters. -/
theorem map_lowercase_encode (text : Text) :
    (encode text).map lowercase = encode (asciiLowercase text) := by
  induction text with
  | nil => rfl
  | cons c text ih =>
    have hcons : asciiLowercase (c :: text) = c.toLower :: asciiLowercase text := rfl
    rw [encode_cons, map_append, hcons, encode_cons]
    congr 1
    rcases ascii_or_high c with ⟨hone, hlow⟩ | ⟨hcode, hhigh⟩
    · have hlower := encode_toLower_ascii c.toNat hlow
      rw [Char.ofNat_toNat] at hlower
      rw [hone, hlower, map_singleton]
    · rw [toLower_of_high hcode]
      exact (map_congr_left fun b hb => lowercase_of_high (hhigh b hb)).trans (map_id _)

/-- A text whose bytes begin those of another begins it. -/
theorem prefix_of_encoded (h : encode a <+: encode b) : a <+: b := by
  induction a generalizing b with
  | nil => exact nil_prefix
  | cons c a ih =>
    obtain ⟨rest, h⟩ := h
    rw [encode_cons, append_assoc] at h
    have hdecode := decodeChar?_append c (encode a ++ rest)
    rw [h] at hdecode
    cases b with
    | nil =>
      have hlength := congrArg List.length h
      have hpos := c.utf8Size_pos
      simp only [length_append, String.length_utf8EncodeChar, encode_nil, length_nil] at hlength
      omega
    | cons d b =>
      rw [encode_cons, decodeChar?_append, Option.some.injEq] at hdecode
      subst hdecode
      rw [encode_cons, append_cancel_left_eq] at h
      exact cons_prefix_cons.mpr ⟨rfl, ih ⟨rest, h⟩⟩

/-- What has no element of `a` and stands in `a ++ b` stands in `b`. -/
theorem infix_of_infix_append {l a b : List α} (hdisjoint : ∀ x ∈ a, x ∉ l) (h : l <:+: a ++ b) :
    l <:+: b := by
  induction a with
  | nil => exact h
  | cons x a ih =>
    have hrest : ∀ y ∈ a, y ∉ l := fun y hy => hdisjoint y (mem_cons_of_mem _ hy)
    rcases infix_of_separated (hdisjoint x mem_cons_self) (a := []) h with h | h
    · rw [infix_nil.mp h]
      exact nil_infix
    · exact ih hrest h

/-- ASCII characters whose bytes stand in those of a text stand in it. -/
theorem infix_of_encoded {needle : Text} (hascii : ∀ c ∈ needle, c.toNat < 128)
    (h : encode needle <:+: encode text) : needle <:+: text := by
  have hlow : ∀ b ∈ encode needle, b.toNat < 128 := by
    intro b hb
    obtain ⟨c, hc, hb⟩ := mem_flatMap.mp hb
    rcases ascii_or_high c with ⟨hone, hcode⟩ | ⟨hcode, -⟩
    · rw [hone, mem_singleton] at hb
      rw [hb]
      exact Nat.lt_of_le_of_lt (Nat.mod_le ..) hcode
    · exact absurd (hascii c hc) (by omega)
  induction text with
  | nil =>
    have hnil := infix_nil.mp h
    rw [encode_injective (hnil.trans encode_nil.symm)]
  | cons c text ih =>
    rw [encode_cons] at h
    rcases ascii_or_high c with ⟨hone, -⟩ | ⟨-, hhigh⟩
    · rw [hone] at h
      rcases infix_cons_iff.mp h with hprefix | h
      · rw [← singleton_append, ← hone] at hprefix
        exact (prefix_of_encoded hprefix).isInfix
      · exact infix_cons (ih h)
    · refine infix_cons (ih (infix_of_infix_append (fun b hb hmem => ?_) h))
      have := hhigh b hb
      have := hlow b hmem
      omega

/-! ## Clean texts -/

/-- Text of allowed characters and without a needle. -/
structure Clean (text : Text) : Prop where
  chars : ∀ c ∈ text, AllowedChar c
  needles : ∀ needle ∈ POLICY_V1.needles, ¬needle.1 <:+: asciiLowercase text

theorem clean_nil : Clean [] := ⟨by simp, by decide⟩

theorem needles_ascii : ∀ needle ∈ POLICY_V1.needles,
    (needle.1.all fun c => c.toNat < 128 && c.toLower = c) = true := by decide

/-- The bytes of a clean text have no needle. -/
theorem Clean.not_occursIn (h : Clean text) {needle : Text × RefusalCode}
    (hneedle : needle ∈ POLICY_V1.needles) : ¬OccursIn (encode needle.1) (encode text) := by
  intro hoccurs
  have hascii := all_eq_true.mp (needles_ascii needle hneedle)
  simp only [Bool.and_eq_true, decide_eq_true_eq] at hascii
  have hlower : asciiLowercase needle.1 = needle.1 :=
    (map_congr_left fun c hc => (hascii c hc).2).trans (map_id _)
  rw [OccursIn, map_lowercase_encode, map_lowercase_encode, hlower] at hoccurs
  exact h.needles needle hneedle (infix_of_encoded (fun c hc => (hascii c hc).1) hoccurs)

/-- Part of a clean text is clean. -/
theorem Clean.of_infix {part : Text} (h : Clean text) (hpart : part <:+: text) : Clean part where
  chars c hc := h.chars c (hpart.subset hc)
  needles needle hneedle hoccurs :=
    h.needles needle hneedle (hoccurs.trans (hpart.map Char.toLower))

/-- Text that can stand between clean texts: no needle reaches over it. -/
def Fence (text : Text) : Prop := ∀ s t, Clean s → Clean t → Clean (s ++ text ++ t)

theorem Fence.clean (h : Fence text) : Clean text := by simpa using h [] [] clean_nil clean_nil

theorem Fence.append (ha : Fence a) (hb : Fence b) : Fence (a ++ b) := by
  intro s t hs ht
  have hrest := hb [] t clean_nil ht
  simpa using ha s _ hs hrest

/-- Clean text between two fences. -/
theorem Fence.around (ha : Fence a) (htext : Clean text) (hb : Fence b) :
    Fence (a ++ text ++ b) := by
  intro s t hs ht
  simpa using ha s _ hs (hb text t htext ht)

/-- The characters in no needle by which pages are fenced. -/
def fenceChars : List Char := ['\n', ' ', '"', '&', ';', '<', '>', '=']

theorem fenceChars_facts : (fenceChars.all fun c =>
    (c = '\n' || inRanges profileRanges c) && c.toLower = c &&
      POLICY_V1.needles.all fun needle => c ∉ needle.1) = true := by decide

theorem fence_char (hc : c ∈ fenceChars) : Fence [c] := by
  intro s t hs ht
  have hfacts := all_eq_true.mp fenceChars_facts c hc
  simp only [Bool.and_eq_true, Bool.or_eq_true, decide_eq_true_eq, all_eq_true] at hfacts
  obtain ⟨⟨hallowed, hlower⟩, habsent⟩ := hfacts
  constructor
  · intro d hd
    simp only [mem_append, mem_singleton] at hd
    rcases hd with (hd | rfl) | hd
    · exact hs.chars d hd
    · exact hallowed
    · exact ht.chars d hd
  · intro needle hneedle hoccurs
    have hlowered : asciiLowercase (s ++ [c] ++ t) =
        asciiLowercase s ++ c :: asciiLowercase t := by simp [asciiLowercase, hlower]
    rw [hlowered] at hoccurs
    rcases infix_of_separated (habsent needle hneedle) hoccurs with h | h
    · exact hs.needles needle hneedle h
    · exact ht.needles needle hneedle h

/-- `Clean`, evaluated. -/
def isClean (text : Text) : Bool :=
  (text.all fun c => c = '\n' || inRanges profileRanges c) &&
    POLICY_V1.needles.all fun needle => !decide (needle.1 <:+: asciiLowercase text)

theorem clean_of_isClean (h : isClean text = true) : Clean text := by
  simp only [isClean, Bool.and_eq_true, all_eq_true, Bool.or_eq_true, decide_eq_true_eq,
    Bool.not_eq_true', decide_eq_false_iff_not] at h
  exact ⟨h.1, h.2⟩

/-- A clean text that begins and ends with a fence, evaluated. -/
def isFence (text : Text) : Bool :=
  isClean text && (text.head?.any fun c => c ∈ fenceChars) &&
    text.getLast?.any fun c => c ∈ fenceChars

theorem fence_of_isFence (h : isFence text = true) : Fence text := by
  simp only [isFence, Bool.and_eq_true, Option.any_eq_true, decide_eq_true_eq] at h
  obtain ⟨⟨hclean, first, hfirst, hfirstFence⟩, last, hlast, hlastFence⟩ := h
  have hclean := clean_of_isClean hclean
  obtain ⟨rest, hrest⟩ := List.head?_eq_some_iff.mp hfirst
  obtain ⟨front, hfront⟩ := List.getLast?_eq_some_iff.mp hlast
  intro s t hs ht
  have hleft : Clean (s ++ text) := by
    have hrestClean : Clean rest := hclean.of_infix ⟨[first], [], by simp [hrest]⟩
    simpa [hrest] using fence_char hfirstFence s rest hs hrestClean
  have hsfront : Clean (s ++ front) := hleft.of_infix ⟨[], [last], by simp [hfront]⟩
  simpa [hfront] using fence_char hlastFence (s ++ front) t hsfront ht

/-- Nothing, or a fence. -/
def Fenced (text : Text) : Prop := text = [] ∨ Fence text

theorem Fenced.after (h : Fenced text) (hs : Clean s) : Clean (s ++ text) := by
  rcases h with rfl | h
  · simpa using hs
  · simpa using h s [] hs clean_nil

theorem Fenced.clean (h : Fenced text) : Clean text := h.after clean_nil

theorem Fenced.append (ha : Fenced a) (hb : Fenced b) : Fenced (a ++ b) := by
  rcases ha with rfl | ha
  · exact hb
  · rcases hb with rfl | hb
    · exact .inr (by simpa using ha)
    · exact .inr (ha.append hb)

theorem fenced_flatMap {render : α → Text} {items : List α}
    (h : ∀ item ∈ items, Fenced (render item)) : Fenced (items.flatMap render) := by
  induction items with
  | nil => exact .inl rfl
  | cons item items ih =>
    exact (h item mem_cons_self).append (ih fun other hother => h other (mem_cons_of_mem _ hother))

/-! ## The canonical text of clean texts -/

/-- Clean text is clean with its entities too. -/
theorem clean_escape (h : Clean text) : Clean (escape text) := by
  -- the text so far, up to the last entity, is kept in front
  suffices hfront : ∀ front, Clean (front ++ text) → Clean (front ++ escape text) from hfront [] h
  clear h
  induction text with
  | nil => exact fun front h => h
  | cons c text ih =>
    intro front h
    have hescape : escape (c :: text) = escapeChar c ++ escape text := rfl
    rw [hescape]
    rcases escapeChar_cases c with ⟨entity, hentity, heq⟩ | ⟨-, heq⟩
    · have hrest : Clean (escape text) := ih [] (h.of_infix ⟨front ++ [c], [], by simp⟩)
      have hentities : ∀ entity ∈ entities, isFence entity.2 = true := by decide
      have hfence : Fence entity := fence_of_isFence (hentities _ hentity)
      have hfront : Clean front := h.of_infix ⟨[], c :: text, by simp⟩
      rw [heq]
      simpa using hfence front _ hfront hrest
    · rw [heq]
      simpa using ih (front ++ [c]) (by simpa using h)

theorem tag_names_clean : isClean tag.name = true := by cases tag <;> decide

/-- A letter, a digit or a hyphen. -/
def isWordChar (c : Char) : Bool := c.isAlphanum || c = '-'

theorem toNat_of_isWordChar (h : isWordChar c = true) : c.toNat < 128 := by
  simp only [isWordChar, Char.isAlphanum, Char.isAlpha, Char.isUpper, Char.isLower, Char.isDigit,
    Bool.or_eq_true, Bool.and_eq_true, decide_eq_true_eq] at h
  rcases h with (((⟨-, h⟩ | ⟨-, h⟩) | ⟨-, h⟩) | rfl)
  · exact Nat.lt_of_le_of_lt h (by decide)
  · exact Nat.lt_of_le_of_lt h (by decide)
  · exact Nat.lt_of_le_of_lt h (by decide)
  · decide

theorem isWordChar_facts : ∀ n < 128, isWordChar (Char.ofNat n) = true →
    inRanges profileRanges (Char.ofNat n) = true ∧
      (Char.ofNat n).toLower ∉ [':', '(', '@'] := by decide

/-- Letters, digits and hyphens make no needle. -/
theorem clean_of_word (h : ∀ c ∈ text, isWordChar c = true) : Clean text := by
  have hfacts : ∀ c ∈ text, inRanges profileRanges c = true ∧ c.toLower ∉ [':', '(', '@'] := by
    intro c hc
    have hfacts := isWordChar_facts c.toNat (toNat_of_isWordChar (h c hc))
    rw [Char.ofNat_toNat] at hfacts
    exact hfacts (h c hc)
  refine ⟨fun c hc => .inr (hfacts c hc).1, fun needle hneedle hoccurs => ?_⟩
  have hmarked : ∀ needle ∈ POLICY_V1.needles,
      (needle.1.any fun c => c ∈ [':', '(', '@']) = true := by decide
  obtain ⟨c, hc, hmark⟩ := any_eq_true.mp (hmarked needle hneedle)
  obtain ⟨d, hd, rfl⟩ := mem_map.mp (hoccurs.subset hc)
  exact (hfacts d hd).2 (of_decide_eq_true hmark)

theorem clean_id {id : Text} (h : IdForm id) : Clean id := by
  obtain ⟨first, rest, rfl, hfirst, -, hrest⟩ := h
  refine clean_of_word fun c hc => ?_
  simp only [isWordChar, Char.isAlphanum, Char.isAlpha, Bool.or_eq_true, decide_eq_true_eq]
  rcases mem_cons.mp hc with rfl | hc
  · exact .inl (.inl (.inr hfirst))
  rcases hrest c hc with h | h | h
  · exact .inl (.inl (.inr h))
  · exact .inl (.inr h)
  · exact .inr h

theorem clean_lang {lang : Text} (h : LangForm lang) : Clean lang := by
  refine clean_of_word fun c hc => ?_
  simp only [isWordChar, Char.isAlphanum, Char.isAlpha]
  rcases h with ⟨a, b, rfl, ha, hb⟩ | ⟨a, b, d, e, rfl, ha, hb, hd, he⟩
  · simp only [mem_cons, not_mem_nil, or_false] at hc
    rcases hc with rfl | rfl <;> simp [ha, hb]
  · simp only [mem_cons, not_mem_nil, or_false] at hc
    rcases hc with rfl | rfl | rfl | rfl | rfl <;> simp [ha, hb, hd, he]

/-- An attribute after clean text. -/
theorem clean_attributeText {name : Text} {value : Option Text} (hs : Clean s) (hname : Clean name)
    (hvalue : ∀ v ∈ value, Clean v) : Clean (s ++ attributeText name value) := by
  cases value with
  | none => simpa [attributeText] using hs
  | some v =>
    have hquote : Fence "\"" := fence_of_isFence (by decide)
    have hv : Fence ("=\"" ++ v ++ "\"") :=
      .around (fence_of_isFence (by decide)) (hvalue v rfl) hquote
    have hspace : Fence " " := fence_of_isFence (by decide)
    simpa [attributeText] using hspace.around hname hv s [] hs clean_nil

theorem clean_attributes (hid : ∀ id ∈ attrs.id, IdForm id) (hs : Clean s) :
    Clean (s ++ attrs.render) := by
  have hclasses : ∀ c : Class, isClean c.name = true := by
    intro c
    cases c <;> decide
  have hcls : ∀ v ∈ attrs.cls.map Class.name, Clean v := by
    intro v hv
    obtain ⟨c, -, rfl⟩ := Option.map_eq_some_iff.mp hv
    exact clean_of_isClean (hclasses c)
  rw [Attrs.render, ← append_assoc]
  exact clean_attributeText (clean_attributeText hs (clean_of_isClean (by decide)) hcls)
    (clean_of_isClean (by decide)) fun id hmem => clean_id (hid id hmem)

theorem fence_startText (hid : ∀ id ∈ attrs.id, IdForm id) : Fence (startText tag attrs) := by
  have hname := clean_attributes hid (clean_of_isClean (tag_names_clean tag))
  have h := (fence_char (c := '<') (by decide)).around hname (fence_char (c := '>') (by decide))
  simpa [startText] using h

theorem fence_endText : Fence (endText tag) := by
  apply fence_of_isFence
  cases tag <;> decide

theorem fence_lineFeed : Fence "\n" := fence_of_isFence (by decide)

theorem fence_containerText {children : Text} (hid : ∀ id ∈ attrs.id, IdForm id)
    (h : Fenced children) : Fence (containerText tag attrs children) := by
  have hopen := (fence_startText tag hid).append fence_lineFeed
  have hclose := (fence_endText tag).append fence_lineFeed
  simpa [containerText] using hopen.around h.clean hclose

/-- The text nodes of inline content. -/
def Inlines.texts : Inlines → List Text
  | .nil => []
  | .text t rest => t :: rest.texts
  | .br rest => rest.texts
  | .span _ _ inlines rest => inlines.texts ++ rest.texts

/-- Inline content of clean texts is clean. If it does not begin with a text, it may follow one. -/
theorem clean_inlines {content : Inlines} (hformed : content.Formed)
    (hid : content.extent.IdForms) (h : ∀ t ∈ content.texts, Clean t) :
    Clean content.render ∧
      (content.startsWithText = false → ∀ s, Clean s → Clean (s ++ content.render)) := by
  induction content with
  | nil => exact ⟨clean_nil, fun _ s hs => by simpa [Inlines.render] using hs⟩
  | text t rest ih =>
    obtain ⟨-, hstart, hrest⟩ := hformed
    have ht := clean_escape (h t mem_cons_self)
    have hrest := ih hrest hid fun u hu => h u (mem_cons_of_mem _ hu)
    exact ⟨hrest.2 hstart _ ht, by simp [Inlines.startsWithText]⟩
  | br rest ih =>
    have hrest := (ih hformed hid h).1
    have hbr : Fence (startText .br .none) := fence_startText .br (by simp [Attrs.none])
    have hafter : ∀ s, Clean s → Clean (s ++ (Inlines.br rest).render) := fun s hs => by
      simpa [Inlines.render] using hbr s _ hs hrest
    exact ⟨hafter [] clean_nil, fun _ => hafter⟩
  | span tag attrs inlines rest ihInlines ihRest =>
    obtain ⟨-, hinlines, hrest⟩ := hformed
    obtain ⟨hspan, hids⟩ := idForm_of_append hid
    obtain ⟨hattrs, hinside⟩ := idForm_of_element hspan
    simp only [Inlines.texts, mem_append] at h
    have hinlines := (ihInlines hinlines hinside fun t ht => h t (.inl ht)).1
    have hrest := (ihRest hrest hids fun t ht => h t (.inr ht)).1
    have hopen : Fence (startText tag.tag attrs) := fence_startText tag.tag hattrs
    have hspan := hopen.around hinlines (fence_endText tag.tag)
    have hafter : ∀ s, Clean s → Clean (s ++ (Inlines.span tag attrs inlines rest).render) :=
      fun s hs => by simpa [Inlines.render] using hspan s _ hs hrest
    exact ⟨hafter [] clean_nil, fun _ => hafter⟩

theorem fence_leaf {l : Leaf} (hid : l.extent.IdForms) (h : Clean l.inlines.render) :
    Fence (l.render tag) := by
  have hopen := fence_startText tag (idForm_of_element hid).1
  simpa [Leaf.render] using hopen.around h ((fence_endText tag).append fence_lineFeed)

theorem fence_block {b : Block} (hid : b.extent.IdForms)
    (h : ∀ leaf ∈ b.leaves, Clean leaf.2.inlines.render) : Fence b.render := by
  cases b with
  | leaf tag l => exact fence_leaf tag.tag hid (h _ mem_cons_self)
  | list tag l =>
    obtain ⟨hattrs, hitems⟩ := idForm_of_element hid
    refine fence_containerText tag.tag hattrs (fenced_flatMap fun item hitem => .inr ?_)
    exact fence_leaf .li (idForm_of_concat hitems hitem) (h (.li, item) (by
      simpa [Block.leaves] using hitem))

theorem fence_blocksText {blocks : List Block} (hid : (blocksExtent attrs blocks).IdForms)
    (h : ∀ leaf ∈ blocks.flatMap Block.leaves, Clean leaf.2.inlines.render) :
    Fence (blocksText tag attrs blocks) := by
  obtain ⟨hattrs, hblocks⟩ := idForm_of_element hid
  refine fence_containerText tag hattrs (fenced_flatMap fun b hb => .inr ?_)
  exact fence_block (idForm_of_concat hblocks hb) fun leaf hleaf =>
    h leaf (mem_flatMap.mpr ⟨b, hb, hleaf⟩)

theorem fenced_regionText {r : Option Region} (hid : (regionExtent r).IdForms)
    (h : ∀ leaf ∈ regionLeaves r, Clean leaf.2.inlines.render) : Fenced (regionText tag r) := by
  cases r with
  | none => exact .inl rfl
  | some r => exact .inr (fence_blocksText tag hid h)

theorem fenced_renderBody (hid : page.extent.IdForms)
    (h : ∀ leaf ∈ page.leaves, Clean leaf.2.inlines.render) : Fenced page.renderBody := by
  obtain ⟨hheader, hrest⟩ := idForm_of_append hid
  obtain ⟨hmain, hfooter⟩ := idForm_of_append hrest
  obtain ⟨hattrs, hitems⟩ := idForm_of_element hmain
  simp only [Page.leaves, mem_append] at h
  have hmain : Fence (containerText .main page.main.attrs
      (page.main.items.flatMap MainItem.render)) := by
    refine fence_containerText .main hattrs (fenced_flatMap fun item hitem => .inr ?_)
    have hitemIds := idForm_of_concat hitems hitem
    have hleaves : ∀ leaf ∈ item.leaves, Clean leaf.2.inlines.render := fun leaf hleaf =>
      h leaf (.inl (.inr (mem_flatMap.mpr ⟨item, hitem, hleaf⟩)))
    cases item with
    | sect s => exact fence_blocksText .section hitemIds hleaves
    | block b => exact fence_block hitemIds hleaves
  exact ((fenced_regionText .header hheader
    fun leaf hleaf => h leaf (.inl (.inl hleaf))).append (.inr hmain)).append
    (fenced_regionText .footer hfooter fun leaf hleaf => h leaf (.inr hleaf))

/-! ## The document -/

theorem isClean_css : isClean css = true := by
  simp only [css, flatMap_cons]
  repeat rewrite [String.toList_ofList]
  decide +kernel

theorem isFence_afterLang : isFence afterLang = true := by
  unfold afterLang
  repeat rewrite [String.toList_ofList]
  decide +kernel

/-- The canonical text of a page is clean if its title and its leaves are. -/
theorem clean_render (h : page.WellFormed) (htitle : Clean page.title)
    (hleaves : ∀ leaf ∈ page.leaves, Clean leaf.2.inlines.render) : Clean page.render := by
  have hhead : Fence head := fence_of_isFence (by decide)
  have hafterLang : Fence afterLang := fence_of_isFence isFence_afterLang
  have hafterTitle : Fence afterTitle := fence_of_isFence (by decide)
  have hafterCss : Fence afterCss := fence_of_isFence (by decide)
  have hepilogue : Fence epilogue := fence_of_isFence (by decide)
  have hlang := hhead.around (clean_lang h.lang) hafterLang
  have htitle := hlang.around (clean_escape htitle) hafterTitle
  have hcss := htitle.around (clean_of_isClean isClean_css) hafterCss
  exact (hcss.around (fenced_renderBody h.ids hleaves).clean hepilogue).clean

/-- The leaves of a page of the grammar are formed, with ids of their form. -/
theorem formed_of_mem_leaves (h : page.WellFormed) {leaf : Tag × Leaf}
    (hleaf : leaf ∈ page.leaves) :
    leaf.2.Formed ∧ leaf.2.extent.IdForms := by
  have hblock : ∀ b : Block, b.Formed → b.extent.IdForms → leaf ∈ b.leaves →
      leaf.2.Formed ∧ leaf.2.extent.IdForms := by
    intro b hformed hid hmem
    cases b with
    | leaf tag l =>
      obtain rfl := mem_singleton.mp hmem
      exact ⟨hformed, hid⟩
    | list tag l =>
      obtain ⟨item, hitem, rfl⟩ := mem_map.mp hmem
      exact ⟨hformed.2 item hitem, idForm_of_concat (idForm_of_element hid).2 hitem⟩
  have hblocks : ∀ attrs blocks, BlocksFormed blocks →
      (blocksExtent attrs blocks).IdForms → leaf ∈ blocks.flatMap Block.leaves →
      leaf.2.Formed ∧ leaf.2.extent.IdForms := by
    intro attrs blocks hformed hid hmem
    obtain ⟨b, hb, hmem⟩ := mem_flatMap.mp hmem
    exact hblock b (hformed.2 b hb) (idForm_of_concat (idForm_of_element hid).2 hb) hmem
  have hregion : ∀ r : Option Region, (∀ region, r = some region → BlocksFormed region.blocks) →
      (regionExtent r).IdForms → leaf ∈ regionLeaves r →
      leaf.2.Formed ∧ leaf.2.extent.IdForms := by
    intro r hformed hid hmem
    cases r with
    | none => cases hmem
    | some r => exact hblocks r.attrs r.blocks (hformed r rfl) hid hmem
  obtain ⟨hheader, hrest⟩ := idForm_of_append h.ids
  obtain ⟨hmain, hfooter⟩ := idForm_of_append hrest
  simp only [Page.leaves, mem_append] at hleaf
  rcases hleaf with (hleaf | hleaf) | hleaf
  · exact hregion page.header h.header hheader hleaf
  · obtain ⟨item, hitem, hleaf⟩ := mem_flatMap.mp hleaf
    have hitemIds := idForm_of_concat (idForm_of_element hmain).2 hitem
    have hformed := h.main.2 item hitem
    cases item with
    | sect s => exact hblocks s.attrs s.blocks hformed hitemIds hleaf
    | block b => exact hblock b hformed hitemIds hleaf
  · exact hregion page.footer h.footer hfooter hleaf

/-! ## Sizes -/

theorem size_append (a b : Text) : size (a ++ b) = size a + size b := by simp [size]

/-- A character takes at most six bytes, as its entity or as itself. -/
theorem size_escape (text : Text) : size (escape text) ≤ 6 * text.length := by
  have hentities : ∀ entity ∈ entities, size entity.2 ≤ 6 := by decide
  induction text with
  | nil => exact Nat.le_refl 0
  | cons c text ih =>
    have hescape : escape (c :: text) = escapeChar c ++ escape text := rfl
    have hchar : size (escapeChar c) ≤ 6 := by
      rcases escapeChar_cases c with ⟨entity, hentity, heq⟩ | ⟨-, heq⟩
      · exact heq ▸ hentities _ hentity
      · have := c.utf8Size_le_four
        rw [heq]
        simpa [size] using by omega
    rw [hescape, size_append, length_cons]
    omega

theorem size_css : size css ≤ 1400 := by
  simp only [css, flatMap_cons]
  repeat rewrite [String.toList_ofList]
  decide +kernel

theorem size_afterLang : size afterLang ≤ 200 := by
  unfold afterLang
  repeat rewrite [String.toList_ofList]
  decide +kernel

/-- What the body and the title leave of the size of a page. -/
theorem size_render (page : Page) : size page.render ≤
    1800 + size page.lang + 6 * page.title.length + size page.renderBody := by
  have hhead : size head = 28 := by decide
  have hafterTitle : size afterTitle = 17 := by decide
  have hafterCss : size afterCss = 24 := by decide
  have hepilogue : size epilogue = 16 := by decide
  have hcss := size_css
  have hafterLang := size_afterLang
  have htitle := size_escape page.title
  simp only [Page.render, size_append]
  omega

/-- A small page of the grammar with clean texts is accepted. -/
theorem check_of_texts (h : page.WellFormed)
    (hsize : (encode page.render).length ≤ maxPageBytes) (htitle : Clean page.title)
    (htexts : ∀ leaf ∈ page.leaves, ∀ t ∈ leaf.2.inlines.texts, Clean t) :
    check (serialize page) = .ok page := by
  have hclean : Clean page.render := by
    refine clean_render h htitle fun leaf hleaf => ?_
    obtain ⟨hformed, hid⟩ := formed_of_mem_leaves h hleaf
    exact (clean_inlines hformed.inlines (idForm_of_element hid).2 (htexts leaf hleaf)).1
  exact check_of_render h ⟨hsize, ⟨_, rfl, hclean.chars⟩, fun _ hn => hclean.not_occursIn hn⟩

end NexusOs.InertPage
