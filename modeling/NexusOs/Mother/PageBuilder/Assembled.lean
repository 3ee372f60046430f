import NexusOs.Mother.PageBuilder.Draft
import NexusOs.Mother.Verifier.Agreement

/-!
# Pages of accepted drafts

If the facts are ready, tested with the fixed draft, the page of every accepted draft is accepted
by the page check and shows the facts; assembling it can only fail for a number, an email address
or the size of the file.
-/

namespace NexusOs.PageBuilder

open Framing Utf8 InertPage Verifier POLICY_V1 DraftSection MainItem
open List hiding flatten

variable {d : PageDraft} {facts : ApprovedFacts}

variable {t v : Text} {attrs : Attrs} {s : DraftSection} {n : Nat} {l : Letters} (tag : ListTag)

theorem formed_leaf (hne : t ≠ []) (h : WellSpaced t) :
    Leaf.Formed { attrs, inlines := .text t .nil } where
  notEmpty := by simp
  inlines := by simp [Inlines.Formed, Inlines.startsWithText, hne]
  spacing := by simpa [Inlines.flatten] using h

theorem PageText.formed (h : PageText t) :
    Leaf.Formed { attrs, inlines := .text t .nil } := formed_leaf h.notEmpty h.spacing

theorem DraftSection.mem_blocks {b : Block} : b ∈ s.blocks ↔ b = .leaf .h2 (leaf s.heading) ∨
    (∃ p ∈ s.paragraphs, .leaf .p (leaf p) = b) ∨
      s.items ≠ [] ∧ b = .list .ul (list s.items none) := by
  rw [blocks, cons_append, mem_cons, mem_append]
  split <;> simp [*]

theorem DraftSection.formed (h : ∀ t ∈ s.texts, PageText t) : BlocksFormed s.blocks := by
  refine ⟨by simp [blocks], fun b hb => ?_⟩
  simp only [texts, cons_append, mem_cons, mem_append] at h
  rcases mem_blocks.mp hb with rfl | ⟨p, hp, rfl⟩ | ⟨hne, rfl⟩
  · exact (h _ (.inl rfl)).formed
  · exact (h p (.inr (.inl hp))).formed
  · refine ⟨by simpa [list] using hne, fun item hitem => ?_⟩
    obtain ⟨t, ht, rfl⟩ := mem_map.mp hitem
    exact (h t (.inr (.inr ht))).formed

theorem Accepted.sectionTexts (h : Accepted d) (hs : s ∈ d.sections) :
    ∀ t ∈ s.texts, PageText t := by
  intro t ht
  refine h.texts t ?_
  simp only [PageDraft.texts, cons_append, mem_cons, mem_append]
  exact .inr (.inl (mem_flatMap.mpr ⟨s, hs, ht⟩))

/-! ## Its extent -/

/-- A part without ids, with few elements and little depth. -/
def Small (n k : Nat) (e : Extent) : Prop := e.elements ≤ n ∧ e.depth ≤ k ∧ e.ids = []

theorem small_concat {parts : List Extent} {k : Nat} (h : ∀ e ∈ parts, Small n k e) :
    Small (parts.length * n) k (.concat parts) := by
  induction parts with
  | nil => simp [Small, Extent.concat, Extent.none]
  | cons e parts ih =>
    obtain ⟨helements, hdepth, hids⟩ := ih fun e he => h e (mem_cons_of_mem _ he)
    obtain ⟨helements', hdepth', hids'⟩ := h e mem_cons_self
    have hcons : Extent.concat (e :: parts) = .append e (.concat parts) := rfl
    rw [hcons]
    refine ⟨?_, Nat.max_le.mpr ⟨hdepth', hdepth⟩, by simp [Extent.append, hids, hids']⟩
    simp only [Extent.append, length_cons, Nat.succ_mul]
    omega

theorem extent_append (a b : List Extent) :
    Extent.concat (a ++ b) = .append (.concat a) (.concat b) := by
  induction a with
  | nil => simp [Extent.concat, Extent.append, Extent.none]
  | cons e a ih =>
    have hcons : ∀ l, Extent.concat (e :: l) = .append e (.concat l) := fun _ => rfl
    rw [cons_append, hcons, hcons, ih]
    simp [Extent.append, Nat.add_assoc]

theorem extent_leaf (tag : TextTag) (t : Text) : (Block.leaf tag (leaf t)).extent =
    { elements := 1, depth := 1, ids := [] } := rfl

theorem extent_list (texts : List Text) (cls : Option InertPage.Class) :
    Small (texts.length + 1) 2 (Block.list tag (list texts cls)).extent := by
  have hitems : ∀ e ∈ (texts.map leaf).map Leaf.extent, Small 1 1 e := by
    intro e he
    simp only [map_map, mem_map] at he
    obtain ⟨t, -, rfl⟩ := he
    exact ⟨Nat.le_refl 1, Nat.le_refl 1, rfl⟩
  obtain ⟨helements, hdepth, hids⟩ := small_concat hitems
  simp only [length_map, Nat.mul_one] at helements
  simp only [Block.extent, list, Extent.element]
  exact ⟨Nat.succ_le_succ helements, Nat.succ_le_succ hdepth, by simpa using hids⟩

/-- The limits of a section, as bounds. -/
theorem DraftSection.of_not_tooLarge (h : s.tooLarge = false) :
    s.heading.length ≤ 80 ∧ s.paragraphs.length ≤ 2 ∧ s.items.length ≤ 8 ∧
      (∀ t ∈ s.paragraphs, t.length ≤ 400) ∧ ∀ t ∈ s.items, t.length ≤ 120 := by
  simp only [tooLarge, Bool.or_eq_false_iff, decide_eq_false_iff_not, not_lt,
    Bool.not_eq_false', Bool.and_eq_true, decide_eq_true_eq, any_eq_false] at h
  obtain ⟨⟨⟨⟨hheading, hparagraphs⟩, hitems⟩, hparagraph⟩, hitem⟩ := h
  exact ⟨hheading, hparagraphs.2, hitems, hparagraph, hitem⟩

theorem extent_section (h : s.tooLarge = false) :
    Small 37 3 (sectionItem none s.blocks).extent := by
  obtain ⟨-, hparagraphs, hitems, -, -⟩ := s.of_not_tooLarge h
  have hblocks : ∀ e ∈ s.blocks.map Block.extent, Small 9 2 e := by
    intro e he
    obtain ⟨b, hb, rfl⟩ := mem_map.mp he
    rcases mem_blocks.mp hb with rfl | ⟨p, -, rfl⟩ | ⟨-, rfl⟩
    · simp [extent_leaf, Small]
    · simp [extent_leaf, Small]
    · obtain ⟨helements, hdepth, hids⟩ := extent_list .ul s.items none
      exact ⟨by omega, hdepth, hids⟩
  have hlength : s.blocks.length ≤ 4 := by
    simp only [blocks, length_cons, length_append, length_map]
    split
    · simp only [length_nil]
      omega
    · simp only [length_cons, length_nil]
      omega
  obtain ⟨helements, hdepth, hids⟩ := small_concat hblocks
  rw [length_map] at helements
  simp only [Small, sectionItem, extent, blocksExtent, Extent.element]
  exact ⟨by omega, Nat.succ_le_succ hdepth, by simpa using hids⟩

variable (facts)

theorem extent_contactItem : (contactItem facts).extent =
    { elements := 4, depth := 3, ids := ["contact"] } := rfl

theorem extent_hoursItem : (hoursItem facts).extent.elements ≤ facts.hours.length + 3 ∧
      (hoursItem facts).extent.depth ≤ 3 ∧
      (hoursItem facts).extent.ids = ["hours".toList] := by
  obtain ⟨helements, hdepth, hids⟩ := extent_list .ul facts.hours (some .plain)
  have hextent : (hoursItem facts).extent = .element { cls := none, id := some "hours" }
      (.append (Block.leaf .h2 (leaf "Opening hours")).extent
        (.append (Block.list .ul (list facts.hours (some .plain))).extent .none)) := rfl
  rw [hextent, extent_leaf]
  simp only [Extent.element, Extent.append, Extent.none, hids]
  exact ⟨by omega, by omega, rfl⟩

theorem of_not_tooLarge (h : d.tooLarge = false) :
    d.lead.length ≤ 240 ∧ d.footer.length ≤ 160 ∧ d.sections.length ≤ 4 ∧
      ∀ s ∈ d.sections, s.tooLarge = false := by
  simp only [PageDraft.tooLarge, Bool.or_eq_false_iff, decide_eq_false_iff_not, not_lt,
    Bool.not_eq_false', Bool.and_eq_true, decide_eq_true_eq, any_eq_false, Bool.not_eq_true] at h
  obtain ⟨⟨⟨hlead, hfooter⟩, hsections⟩, hsection⟩ := h
  exact ⟨hlead, hfooter, hsections.2, hsection⟩

/-- What the checks of `ApprovedFacts::new` leave of each value. -/
theorem of_factsError {name : Text} {hours : List Text} {phone : Text}
    (h : factsError name hours phone = none) : (∀ v ∈ name :: hours ++ [phone], valueOk v = true) ∧
      name.length ≤ factsNameMaxChars ∧ hours.length ≤ factsHoursMaxLines := by
  unfold factsError at h
  split at h
  · cases h
  · rename_i hvalues
    simp only [not_or, Bool.not_eq_true', Bool.not_eq_false, all_eq_true, not_lt,
      not_not] at hvalues
    exact ⟨hvalues.1, hvalues.2.1, hvalues.2.2.2⟩

theorem clean_of_valueOk (h : valueOk v = true) : Clean v ∧ v.length ≤ factsValueMaxChars := by
  simp only [valueOk, Bool.and_eq_true, decide_eq_true_eq, all_eq_true, Bool.not_eq_true',
    any_eq_false] at h
  obtain ⟨⟨⟨⟨⟨⟨-, hlength⟩, hchars⟩, -⟩, -⟩, -⟩, hneedles⟩ := h
  exact ⟨⟨fun c hc => .inr (hchars c hc).2, hneedles⟩, hlength⟩

theorem extent_items (h : d.tooLarge = false) :
    (Extent.concat ((pageOf d facts).main.items.map extent)).elements ≤
        155 + facts.hours.length ∧
      (Extent.concat ((pageOf d facts).main.items.map extent)).depth ≤ 3 ∧
      (Extent.concat ((pageOf d facts).main.items.map extent)).ids =
        ["hours".toList, "contact".toList] := by
  obtain ⟨-, -, hsections, hsection⟩ := of_not_tooLarge h
  have hparts : ∀ e ∈ d.sections.map fun s => (sectionItem none s.blocks).extent, Small 37 3 e := by
    intro e he
    obtain ⟨s, hs, rfl⟩ := mem_map.mp he
    exact extent_section (hsection s hs)
  obtain ⟨helements, hdepth, hids⟩ := small_concat hparts
  obtain ⟨hhours, hhoursDepth, hhoursIds⟩ := extent_hoursItem facts
  rw [length_map] at helements
  have hitems : (pageOf d facts).main.items.map extent =
      d.sections.map (fun s => (sectionItem none s.blocks).extent) ++
        [(hoursItem facts).extent, (contactItem facts).extent] := by
    simp [pageOf]
  rw [hitems, extent_append]
  simp only [Extent.append, Extent.concat, foldr_cons, foldr_nil, Extent.none,
    extent_contactItem, hhoursIds] at hids helements hdepth ⊢
  rw [hids]
  exact ⟨by omega, by omega, rfl⟩

theorem extent_pageOf (h : d.tooLarge = false) : (pageOf d facts).extent.elements ≤ maxElements ∧
      (pageOf d facts).extent.depth ≤ maxDepth ∧
      (pageOf d facts).extent.ids = ["hours".toList, "contact".toList] := by
  obtain ⟨helements, hdepth, hids⟩ := extent_items facts h
  have hhours := (of_factsError facts.valid).2.2
  have hmax : maxElements = 400 ∧ maxDepth = 8 ∧ factsHoursMaxLines = 7 := ⟨rfl, rfl, rfl⟩
  have hheader : regionExtent (pageOf d facts).header =
      { elements := 3, depth := 2, ids := [] } := rfl
  have hfooter : regionExtent (pageOf d facts).footer =
      { elements := 2, depth := 2, ids := [] } := rfl
  simp only [Page.extent, hheader, hfooter, Extent.append, Extent.element, hids]
  exact ⟨by omega, by omega, rfl⟩

/-- The facts are spaced as the leaves that show them have to be. -/
structure Fit (facts : ApprovedFacts) : Prop where
  name : WellSpaced facts.name
  hours : ∀ t ∈ facts.hours, WellSpaced t
  phone : WellSpaced ("Phone: " ++ facts.phone)

theorem value_ne_nil (hv : v ∈ facts.name :: facts.hours ++ [facts.phone]) : v ≠ [] := by
  have hok := (of_factsError facts.valid).1 v hv
  rintro rfl
  revert hok
  decide

theorem hours_ne_nil : facts.hours ≠ [] := by
  intro hnil
  have hvalid := facts.valid
  unfold factsError at hvalid
  split at hvalid
  · cases hvalid
  · rename_i hvalues
    simp [hnil, factsHoursMinLines] at hvalues

variable {facts}

theorem formed_phoneLeaf (h : Fit facts) : (phoneLeaf facts).Formed where
  notEmpty := by simp [phoneLeaf]
  inlines := by
    simp [phoneLeaf, leaf, Inlines.Formed, Inlines.startsWithText,
      value_ne_nil facts (v := facts.phone)]
  spacing := by simpa [phoneLeaf, leaf, Inlines.flatten] using h.phone

theorem wellFormed_pageOf (hfit : Fit facts) (hd : Accepted d) : (pageOf d facts).WellFormed where
  lang := .inl ⟨'e', 'n', rfl, by decide, by decide⟩
  title := hfit.name
  titleChars :=
    ⟨length_pos_iff.mpr (value_ne_nil facts (v := facts.name) (by simp)),
      (of_factsError facts.valid).2.1⟩
  header := by
    rintro r hr
    cases hr
    refine ⟨by simp, fun b hb => ?_⟩
    simp only [mem_cons, not_mem_nil, or_false] at hb
    rcases hb with rfl | rfl
    · exact formed_leaf (value_ne_nil facts (by simp)) hfit.name
    · exact (hd.texts _ mem_cons_self).formed
  main := by
    refine ⟨by simp [pageOf], fun item hitem => ?_⟩
    simp only [pageOf, mem_append, mem_map, mem_cons, not_mem_nil, or_false] at hitem
    rcases hitem with ⟨s, hs, rfl⟩ | rfl | rfl
    · exact formed (hd.sectionTexts hs)
    · have hlabel : PageText "Opening hours" :=
        pageText_of_short (by decide) (by decide) (by decide) (by decide)
      refine ⟨by simp, forall_mem_cons.mpr ⟨hlabel.formed, forall_mem_singleton.mpr ?_⟩⟩
      refine ⟨?_, fun item hitem => ?_⟩
      · simpa [list] using hours_ne_nil facts
      · obtain ⟨t, ht, rfl⟩ := mem_map.mp hitem
        exact formed_leaf (value_ne_nil facts (by simp [ht])) (hfit.hours t ht)
    · have hlabel : PageText "Contact" :=
        pageText_of_short (by decide) (by decide) (by decide) (by decide)
      exact ⟨by simp, forall_mem_cons.mpr ⟨hlabel.formed,
        forall_mem_singleton.mpr (formed_phoneLeaf hfit)⟩⟩
  footer := by
    rintro r hr
    cases hr
    refine ⟨by simp, fun b hb => ?_⟩
    obtain rfl := mem_singleton.mp hb
    exact (hd.texts _ (by simp [PageDraft.texts])).formed
  ids := by
    rw [(extent_pageOf facts hd.small).2.2]
    intro id hid
    simp only [mem_cons, not_mem_nil, or_false] at hid
    rcases hid with rfl | rfl
    · exact idForm_of_all (by decide)
    · exact idForm_of_all (by decide)
  uniqueIds := by
    rw [(extent_pageOf facts hd.small).2.2]
    decide
  elements := (extent_pageOf facts hd.small).1
  depth := (extent_pageOf facts hd.small).2.1

/-! ## Its texts -/

/-- The leaves of a section of the draft: its texts, under other tags than `h1`. -/
theorem DraftSection.leaves_blocks {l : Tag × Leaf} (h : l ∈ s.blocks.flatMap Block.leaves) :
    l.1 ≠ .h1 ∧ ∃ t ∈ s.texts, l.2 = leaf t := by
  obtain ⟨b, hb, hl⟩ := mem_flatMap.mp h
  simp only [texts, cons_append, mem_cons, mem_append]
  rcases mem_blocks.mp hb with rfl | ⟨p, hp, rfl⟩ | ⟨-, rfl⟩
  · obtain rfl := mem_singleton.mp hl
    exact ⟨by simp [TextTag.tag], s.heading, .inl rfl, rfl⟩
  · obtain rfl := mem_singleton.mp hl
    exact ⟨by simp [TextTag.tag], p, .inr (.inl hp), rfl⟩
  · simp only [Block.leaves, list, map_map, mem_map] at hl
    obtain ⟨t, ht, rfl⟩ := hl
    exact ⟨by simp, t, .inr (.inr ht), rfl⟩

variable (d facts)

/-- The leaves of the page, in document order. -/
theorem leaves_pageOf :
    (pageOf d facts).leaves = (.h1, leaf facts.name) :: (.p, classLeaf .lead d.lead) ::
      (d.sections.flatMap (fun s => s.blocks.flatMap Block.leaves) ++
        (.h2, leaf "Opening hours") :: facts.hours.map (fun t => (.li, leaf t)) ++
        [(.h2, leaf "Contact"), (.p, phoneLeaf facts), (.p, classLeaf .muted d.footer)]) := by
  simp [Page.leaves, pageOf, regionLeaves, Block.leaves, flatMap_map, leaves, sectionItem,
    hoursItem, contactItem, list, TextTag.tag]

theorem hours_mem_leaves {line : Text} (h : line ∈ facts.hours) :
    (.li, leaf line) ∈ (pageOf d facts).leaves := by
  rw [leaves_pageOf]
  simp only [cons_append, append_assoc, mem_cons, mem_append]
  exact .inr (.inr (.inr (.inr (.inl (mem_map.mpr ⟨line, h, rfl⟩)))))

theorem phone_mem_leaves :
    (.p, phoneLeaf facts) ∈ (pageOf d facts).leaves := by simp [leaves_pageOf]

theorem clean_leaf (h : Clean t) :
    ∀ u ∈ Leaf.inlines { attrs, inlines := .text t .nil } |>.texts, Clean u := by
  intro u hu
  obtain rfl : u = t := by simpa [Inlines.texts] using hu
  exact h

theorem texts_pageOf (hd : Accepted d) :
    ∀ l ∈ (pageOf d facts).leaves, ∀ t ∈ l.2.inlines.texts, Clean t := by
  have hvalues := (of_factsError facts.valid).1
  have hvalue : ∀ v ∈ facts.name :: facts.hours ++ [facts.phone], Clean v := fun v hv =>
    (clean_of_valueOk (hvalues v hv)).1
  have hfixed : ∀ v ∈ ["Opening hours".toList, "Contact".toList, "Phone: ".toList],
      isClean v = true := by decide
  intro l hl
  rw [leaves_pageOf] at hl
  simp only [cons_append, append_assoc, mem_cons, mem_append, mem_map, not_mem_nil, or_false] at hl
  rcases hl with rfl | rfl | hl | rfl | ⟨line, hline, rfl⟩ | rfl | rfl | rfl
  · exact clean_leaf (hvalue _ (by simp))
  · exact clean_leaf (hd.texts _ (by simp [PageDraft.texts])).clean
  · obtain ⟨s, hs, hl⟩ := mem_flatMap.mp hl
    obtain ⟨-, t, ht, heq⟩ := s.leaves_blocks hl
    rw [heq]
    exact clean_leaf (hd.sectionTexts hs t ht).clean
  · exact clean_leaf (clean_of_isClean (hfixed _ (by simp)))
  · exact clean_leaf (hvalue _ (by simp [hline]))
  · exact clean_leaf (clean_of_isClean (hfixed _ (by simp)))
  · intro t ht
    have ht : t = "Phone: " ∨ t = facts.phone := by simpa [phoneLeaf, leaf, Inlines.texts] using ht
    rcases ht with rfl | rfl
    · exact clean_of_isClean (hfixed _ (by simp))
    · exact hvalue _ (by simp)
  · exact clean_leaf (hd.texts _ (by simp [PageDraft.texts])).clean

/-! ## Its size -/

theorem size_flatMap {α : Type} {render : α → Text} {items : List α}
    (h : ∀ item ∈ items, size (render item) ≤ n) :
    size (items.flatMap render) ≤ items.length * n := by
  induction items with
  | nil => simp [size]
  | cons item items ih =>
    have hitem := h item mem_cons_self
    have hitems := ih fun other hother => h other (mem_cons_of_mem _ hother)
    rw [flatMap_cons, size_append, length_cons, Nat.succ_mul]
    omega

theorem size_attributeText (name : Text) {value : Option Text} (h : ∀ v ∈ value, size v ≤ n) :
    size (attributeText name value) ≤ size name + 4 + n := by
  cases value with
  | none => exact Nat.zero_le _
  | some v =>
    have hv := h v rfl
    have hmarks : size " " = 1 ∧ size "=\"" = 2 ∧ size "\"" = 1 := by decide
    simp only [attributeText, size_append]
    omega

/-- The tags around a leaf or a container. -/
theorem size_tags (tag : Tag) (attrs : Attrs) (hid : ∀ i ∈ attrs.id, size i ≤ 7) :
    size (startText tag attrs) + size (endText tag) ≤ 47 := by
  have hname : size tag.name ≤ 7 := by cases tag <;> decide
  have hclasses : ∀ c : InertPage.Class, size c.name ≤ 6 := by
    intro c
    cases c <;> decide
  have hcls : ∀ v ∈ attrs.cls.map InertPage.Class.name, size v ≤ 6 := by
    intro v hv
    obtain ⟨c, -, rfl⟩ := Option.map_eq_some_iff.mp hv
    exact hclasses c
  have hclass := size_attributeText className hcls
  have hids := size_attributeText idName hid
  have hnames : size className = 5 ∧ size idName = 2 := by decide
  have hmarks : size "<" = 1 ∧ size ">" = 1 ∧ size "</" = 2 := by decide
  simp only [startText, endText, Attrs.render, size_append]
  omega

theorem size_lineFeed : size "\n" = 1 := by decide

theorem size_containerText (tag : Tag) (attrs : Attrs) (children : Text)
    (hid : ∀ i ∈ attrs.id, size i ≤ 7) :
    size (containerText tag attrs children) ≤ 49 + size children := by
  have htags := size_tags tag attrs hid
  simp only [containerText, size_append, size_lineFeed]
  omega

theorem size_leaf (tag : Tag) (cls : Option InertPage.Class) (t : Text) :
    size (Leaf.render tag { attrs := { cls, id := none }, inlines := .text t .nil }) ≤
      48 + 6 * t.length := by
  have htags := size_tags tag { cls, id := none } (by simp)
  have htext := size_escape t
  simp only [Leaf.render, Inlines.render, size_append, size_lineFeed, append_nil]
  omega

theorem size_list (cls : Option InertPage.Class) {texts : List Text}
    (h : ∀ t ∈ texts, t.length ≤ n) :
    size (Block.list tag (list texts cls)).render ≤ 49 + texts.length * (48 + 6 * n) := by
  have hitems : size ((texts.map leaf).flatMap (Leaf.render .li)) ≤
      (texts.map leaf).length * (48 + 6 * n) := by
    refine size_flatMap fun item hitem => ?_
    obtain ⟨t, ht, rfl⟩ := mem_map.mp hitem
    have hleaf := size_leaf .li none t
    have := h t ht
    exact hleaf.trans (by omega)
  rw [length_map] at hitems
  have hcontainer := size_containerText tag.tag { cls, id := none }
    ((texts.map leaf).flatMap (Leaf.render .li)) (by simp)
  simp only [Block.render, list]
  omega

theorem size_sectionItem {id : Option Text} (hid : ∀ i ∈ id, size i ≤ 7) (blocks : List Block) :
    size (sectionItem id blocks).render ≤ 49 + size (blocks.flatMap Block.render) :=
  size_containerText .section { cls := none, id } _ hid

theorem size_section (h : s.tooLarge = false) :
    size (sectionItem none s.blocks).render ≤ 11700 := by
  obtain ⟨hheading, hparagraphs, hitems, hparagraph, hitem⟩ := s.of_not_tooLarge h
  have hhead := size_leaf .h2 none s.heading
  have hbody : size ((s.paragraphs.map fun p => Block.leaf .p (leaf p)).flatMap Block.render) ≤
      2 * 2448 := by
    have hleaf : ∀ b ∈ s.paragraphs.map fun p => Block.leaf .p (leaf p), size b.render ≤ 2448 := by
      intro b hb
      obtain ⟨p, hp, rfl⟩ := mem_map.mp hb
      have := hparagraph p hp
      exact (size_leaf .p none p).trans (by omega)
    have hall := size_flatMap hleaf
    rw [length_map] at hall
    exact hall.trans (Nat.mul_le_mul_right _ hparagraphs)
  have hlist := size_list .ul none hitem
  have hrest : size ((if s.items = [] then [] else [Block.list .ul (list s.items none)]).flatMap
      Block.render) ≤ 49 + 8 * 768 := by
    split
    · exact Nat.zero_le _
    · rw [flatMap_singleton]
      exact hlist.trans (by omega)
  have hcontainer := @size_sectionItem none (by simp) s.blocks
  have hblocks : size (s.blocks.flatMap Block.render) =
      size (Leaf.render .h2 (leaf s.heading)) +
        size ((s.paragraphs.map fun p => Block.leaf .p (leaf p)).flatMap Block.render) +
        size ((if s.items = [] then [] else [Block.list .ul (list s.items none)]).flatMap
          Block.render) := by
    rw [blocks, cons_append, flatMap_cons, flatMap_append, size_append, size_append]
    exact (Nat.add_assoc ..).symm
  have hleaf : size (Leaf.render .h2 (leaf s.heading)) ≤ 48 + 6 * s.heading.length := hhead
  omega

theorem size_hoursItem : size (hoursItem facts).render ≤ 5700 := by
  obtain ⟨hvalues, -, hlines⟩ := of_factsError facts.valid
  have hline : ∀ t ∈ facts.hours, t.length ≤ factsValueMaxChars := fun t ht =>
    (clean_of_valueOk (hvalues t (by simp [ht]))).2
  have hlist := size_list .ul (some .plain) hline
  have hmax : factsHoursMaxLines = 7 ∧ factsValueMaxChars = 120 := ⟨rfl, rfl⟩
  rw [hmax.2] at hlist
  have hlabel : size (Block.leaf .h2 (leaf "Opening hours")).render ≤ 48 + 6 * 13 :=
    size_leaf .h2 none "Opening hours"
  refine (size_sectionItem (by decide) _).trans ?_
  rw [flatMap_cons, flatMap_singleton, size_append]
  omega

theorem size_contactItem : size (contactItem facts).render ≤ 1100 := by
  have hphone : facts.phone.length ≤ 120 :=
    (clean_of_valueOk ((of_factsError facts.valid).1 facts.phone (by simp))).2
  have hescape := size_escape facts.phone
  have hlabel : size (Block.leaf .h2 (leaf "Contact")).render ≤ 48 + 6 * 7 :=
    size_leaf .h2 none "Contact"
  have hp := size_tags .p .none (by simp [Attrs.none])
  have hstrong := size_tags .strong .none (by simp [Attrs.none])
  have hfixed := size_escape "Phone: "
  have hleaf : size (Block.leaf .p (phoneLeaf facts)).render ≤
      95 + 42 + 6 * facts.phone.length := by
    have hlength : "Phone: ".toList.length = 7 := by decide
    have hrender : (Block.leaf .p (phoneLeaf facts)).render = startText .p Attrs.none ++
        (escape "Phone: " ++ (startText .strong .none ++ (escape facts.phone ++ []) ++
          endText .strong ++ [])) ++ endText .p ++ "\n".toList := rfl
    rw [hrender]
    simp only [size_append, size_lineFeed, append_nil]
    omega
  refine (size_sectionItem (by decide) _).trans ?_
  rw [flatMap_cons, flatMap_singleton, size_append]
  omega

/-- The page is far below the limit even if every character of its texts is an entity. -/
theorem size_pageOf (h : d.tooLarge = false) : size (pageOf d facts).render ≤ maxPageBytes := by
  obtain ⟨hlead, hfooter, hsections, hsection⟩ := of_not_tooLarge h
  have hname : facts.name.length ≤ 80 := (of_factsError facts.valid).2.1
  have hall : size ((d.sections.map fun s => sectionItem none s.blocks).flatMap
      render) ≤ d.sections.length * 11700 := by
    have hitems := size_flatMap (n := 11700) fun s hs => size_section (hsection s hs)
    rwa [← flatMap_map] at hitems
  have hhours := size_hoursItem facts
  have hcontact := size_contactItem facts
  have hmain := size_containerText .main .none
    ((pageOf d facts).main.items.flatMap render) (by simp [Attrs.none])
  have hitems : (pageOf d facts).main.items.flatMap render =
      (d.sections.map fun s => sectionItem none s.blocks).flatMap render ++
        ((hoursItem facts).render ++ (contactItem facts).render) := by
    simp [pageOf]
  have hheading : size (Leaf.render .h1 (leaf facts.name)) ≤ 48 + 6 * facts.name.length :=
    size_leaf .h1 none facts.name
  have hleadLeaf : size (Leaf.render .p (classLeaf .lead d.lead)) ≤ 48 + 6 * d.lead.length :=
    size_leaf .p (some .lead) d.lead
  have hfooterLeaf : size (Leaf.render .p (classLeaf .muted d.footer)) ≤
      48 + 6 * d.footer.length := size_leaf .p (some .muted) d.footer
  have hheader := size_containerText .header .none
    (Leaf.render .h1 (leaf facts.name) ++ Leaf.render .p (classLeaf .lead d.lead))
    (by simp [Attrs.none])
  have hfooterRegion := size_containerText .footer .none
    (Leaf.render .p (classLeaf .muted d.footer)) (by simp [Attrs.none])
  have hbody : (pageOf d facts).renderBody =
      containerText .header .none
          (Leaf.render .h1 (leaf facts.name) ++ Leaf.render .p (classLeaf .lead d.lead)) ++
        containerText .main Attrs.none ((pageOf d facts).main.items.flatMap render) ++
        containerText .footer Attrs.none (Leaf.render .p (classLeaf .muted d.footer)) := by
    simp [Page.renderBody, pageOf, regionText, blocksText, Block.render, TextTag.tag]
  have hrender := size_render (pageOf d facts)
  have hlang : size (pageOf d facts).lang = 2 := rfl
  have htitle : (pageOf d facts).title = facts.name := rfl
  have hmax : maxPageBytes = 65536 := rfl
  rw [hitems, size_append, size_append] at hmain
  rw [hbody, hitems, size_append, size_append, htitle] at hrender
  rw [size_append] at hheader
  omega

variable {d facts}

/-- The page of an accepted draft is accepted if the facts fit. -/
theorem check_pageOf (hfit : Fit facts) (hd : Accepted d) :
    check (serialize (pageOf d facts)) = .ok (pageOf d facts) := by
  refine check_of_texts (wellFormed_pageOf hfit hd) ?_ ?_ (texts_pageOf d facts hd)
  · rw [length_encode]
    exact size_pageOf d facts hd.small
  · exact (clean_of_valueOk ((of_factsError facts.valid).1 facts.name (by simp))).1

theorem buildPage_eq_ok {page : Page} : buildPage d facts = .ok page ↔
    page = pageOf d facts ∧ check (serialize page) = .ok page := by
  have hnew : Page.new (pageOf d facts).lang (pageOf d facts).title (pageOf d facts).header
      (pageOf d facts).main (pageOf d facts).footer = .ok page ↔
      page = pageOf d facts ∧ check (serialize page) = .ok page := new_eq_ok
  rw [← hnew]
  unfold buildPage
  dsimp only
  generalize Page.new (pageOf d facts).lang (pageOf d facts).title (pageOf d facts).header
    (pageOf d facts).main (pageOf d facts).footer = built
  cases built with
  | error refusal | ok page' => simp

/-! ## The facts on it -/

theorem text_leaf : Leaf.text { attrs, inlines := .text t .nil } = t := by
  simp [text_eq_flatten, Inlines.flatten]

variable (d facts)

/-- The phone is the text of a span of its leaf. -/
theorem flatten_phoneLeaf : flatten (phoneLeaf facts) =
    ("Phone: " ++ facts.phone, [(7, 7 + facts.phone.length)]) := by
  simp [flatten, phoneLeaf, leaf, flattenLoop]
  omega

theorem nameHeading_pageOf : (factsReport (pageOf d facts) facts).nameHeading = true := by
  have hheadings : (leafTexts (pageOf d facts)).filter (fun l => l.tag = .h1) =
      [leafText .h1 (leaf facts.name)] := by
    have hsections : (d.sections.flatMap fun s => s.blocks.flatMap Block.leaves).filter
        (fun l => l.1 = .h1) = [] := by
      refine filter_eq_nil_iff.mpr fun l hl => ?_
      obtain ⟨s, -, hl⟩ := mem_flatMap.mp hl
      simpa using (s.leaves_blocks hl).1
    have hfilter : (pageOf d facts).leaves.filter (fun l => l.1 = .h1) =
        [(.h1, leaf facts.name)] := by
      simp [leaves_pageOf, hsections]
    rw [leafTexts, filter_map]
    have htag : ((fun l : LeafText => decide (l.tag = .h1)) ∘ fun leaf : Tag × Leaf =>
        leafText leaf.1 leaf.2) = fun l => decide (l.1 = .h1) := rfl
    rw [htag, hfilter, map_singleton]
  simp only [factsReport, hheadings, decide_eq_true_eq]
  exact text_leaf

/-- The page shows the name, the hours and the phone. -/
theorem shows_pageOf : (factsReport (pageOf d facts) facts).nameTitle = true ∧
      (∀ ok ∈ (factsReport (pageOf d facts) facts).hours, ok = true) ∧
      (factsReport (pageOf d facts) facts).phone = true := by
  have hleaf : ∀ l ∈ (pageOf d facts).leaves,
      leafText l.1 l.2 ∈ leafTexts (pageOf d facts) := fun l hl => mem_map_of_mem hl
  refine ⟨by simp [factsReport, pageOf], fun ok hok => ?_, ?_⟩
  · obtain ⟨line, hline, rfl⟩ := mem_map.mp hok
    refine any_eq_true.mpr ⟨_, hleaf _ (hours_mem_leaves d facts hline), ?_⟩
    have htext : (flatten (leaf line)).1 = line := text_leaf
    simp [leafText, htext]
  · refine any_eq_true.mpr ⟨_, hleaf _ (phone_mem_leaves d facts), ?_⟩
    simp [leafText, flatten_phoneLeaf, slice]

/-- So the facts check has nothing to report but a foreign number. -/
theorem checkFacts_pageOf : checkFacts (pageOf d facts) facts =
      if (factsReport (pageOf d facts) facts).noForeignNumber then .ok ()
      else .error .foreignNumber := by
  obtain ⟨htitle, hhours, hphone⟩ := shows_pageOf d facts
  rw [checkFacts, FactsReport.firstError, findIdx?_not_eq_none.mpr hhours]
  simp only [nameHeading_pageOf, htitle, hphone]
  cases (factsReport (pageOf d facts) facts).noForeignNumber <;> rfl

/-! ## Assembling it -/

variable {d facts}

/-- Facts that are ready fit: the leaves that show them are those of the fixed draft's page. -/
theorem fit_of_factsPageReady (h : factsPageReady l facts = true) : Fit facts := by
  unfold factsPageReady factsReady at h
  split at h
  · cases h
  · rename_i page hbuilt
    obtain ⟨rfl, hcheck⟩ := buildPage_eq_ok.mp hbuilt
    have hformed := (of_check_eq_ok hcheck).2.2
    refine ⟨hformed.title, fun t ht => ?_, ?_⟩
    · have hleaf := (formed_of_mem_leaves hformed (hours_mem_leaves fixedDraft facts ht)).1
      simpa [leaf, Inlines.flatten] using hleaf.spacing
    · have hleaf := (formed_of_mem_leaves hformed (phone_mem_leaves fixedDraft facts)).1
      simpa [phoneLeaf, leaf, Inlines.flatten] using hleaf.spacing

/-- What a file that was assembled is: a page that is accepted, shows the facts, has no email
address and keeps the limits of a file. -/
structure Assembled (l : Letters) (facts : ApprovedFacts) (content : Text) (page : Page) :
    Prop where
  check : InertPage.check (encode content) = .ok page
  facts : checkFacts page facts = .ok ()
  email : emailScan l page = false
  size : size content ≤ 8192
  lines : lineCount content ≤ 150

theorem fileLimits_cases (text : Text) : fileLimits text = .error .tooLarge ∨
    fileLimits text = .ok () ∧ size text ≤ 8192 ∧ lineCount text ≤ 150 := by
  unfold fileLimits
  split
  · exact .inl rfl
  · rename_i hlimits
    rw [not_or] at hlimits
    exact .inr ⟨rfl, Nat.le_of_not_lt hlimits.1, Nat.le_of_not_lt hlimits.2⟩

/-- The page of an accepted draft is assembled, or has a foreign number, an email address or a
file that is too large. -/
theorem assemble_cases (hready : factsPageReady l facts = true) (hd : Accepted d) :
    (∃ code, assemble l d facts = .error code ∧
        code ∈ [DraftCode.foreignNumber, .email, .tooLarge]) ∨
      ∃ content page, assemble l d facts = .ok (encode content) ∧
        Assembled l facts content page := by
  have hcheck := check_pageOf (fit_of_factsPageReady hready) hd
  have hbuilt : buildPage d facts = .ok (pageOf d facts) := buildPage_eq_ok.mpr ⟨rfl, hcheck⟩
  have hserialize := serialize_eq (of_check_eq_ok hcheck).1.size
  unfold assemble
  simp only [hbuilt, hcheck]
  have hfacts := checkFacts_pageOf d facts
  cases hnumber : (factsReport (pageOf d facts) facts).noForeignNumber
  · rw [hfacts, hnumber]
    exact .inl ⟨.foreignNumber, rfl, by simp⟩
  · rw [hnumber] at hfacts
    rw [hfacts]
    cases hemail : emailScan l (pageOf d facts) with
    | true => exact .inl ⟨.email, by simp, by simp⟩
    | false =>
      simp only [hserialize, fromUtf8_encode]
      rcases fileLimits_cases (pageOf d facts).render with hlimits | ⟨hlimits, hsize, hlines⟩
      · rw [hlimits]
        exact .inl ⟨.tooLarge, rfl, by simp⟩
      · rw [hlimits]
        exact .inr ⟨_, _, rfl, hserialize ▸ hcheck, hfacts, hemail, hsize, hlines⟩

end NexusOs.PageBuilder
