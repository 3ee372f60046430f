import NexusOs.InertPage.Canonical
import NexusOs.Mother.Verifier

/-!
# The second reader on an accepted page

The canonical text of a page, read by the second reader: every tag, every run of text and every
line of the body is read as what it was written from. So the reader reads every accepted page,
and its title and lines are the title and the leaves of the tree (`readVisibleText_render`).
-/

namespace NexusOs.Verifier

open Framing Utf8 InertPage POLICY_V1
open List hiding head

/-! ## Text -/

variable {fuel : Nat} {rest id value k t needle s text : Text} {attrs : Attrs} {content : Inlines}
  {l : Leaf} {page : Page} {c : Char} {seenClass seenId : Bool}
  (hid : ∀ id ∈ attrs.id, IdForm id)

theorem decodeLoop_nil : decodeLoop fuel [] = some [] := by cases fuel <;> rfl

/-- A character that is not special is taken as it is. -/
theorem decodeLoop_plain (hc : plainChar c = true) :
    decodeLoop (fuel + 1) (c :: rest) = (decodeLoop (fuel + 1) rest).map (c :: ·) := by
  simp only [decodeLoop, takeWhile_cons_of_pos hc, length_cons, drop_succ_cons]
  split
  · rfl
  cases entities.find? fun entity =>
      entity.1.isPrefixOf (rest.drop (rest.takeWhile plainChar).length) with
  | none => rfl
  | some entity =>
    simp only [Option.bind_eq_bind, Option.bind_some]
    cases decodeLoop fuel _ with
    | none | some out => rfl

/-- An entity is taken as its character. -/
theorem decodeLoop_entity {entity : Text} (h : (c, entity) ∈ POLICY_V1.entities) :
    decodeLoop (fuel + 1) (entity ++ rest) = (decodeLoop fuel rest).map (c :: ·) := by
  have hfind : entities.find? (fun e => e.1.isPrefixOf (entity ++ rest)) = some (entity, c) ∧
      (entity ++ rest).takeWhile plainChar = [] ∧ entity ++ rest ≠ [] := by
    simp only [POLICY_V1.entities, mem_cons, not_mem_nil, or_false] at h
    rcases h with ⟨rfl, rfl⟩ | ⟨rfl, rfl⟩ | ⟨rfl, rfl⟩ | ⟨rfl, rfl⟩ | ⟨rfl, rfl⟩ <;>
      exact ⟨rfl, rfl, by simp⟩
  obtain ⟨hfind, htake, hne⟩ := hfind
  simp only [decodeLoop, htake, length_nil, drop_zero, hne, hfind, Option.bind_eq_bind,
    Option.bind_some, drop_left]
  cases decodeLoop fuel rest with
  | none | some out => rfl

/-- Escaped text is decoded to itself. -/
theorem decode_escape (text : Text) : decode (escape text) = some text := by
  have hloop : ∀ fuel, (escape text).length ≤ fuel → decodeLoop fuel (escape text) = some text := by
    induction text with
    | nil => exact fun fuel _ => decodeLoop_nil
    | cons c text ih =>
      intro fuel hfuel
      have hcons : escape (c :: text) = escapeChar c ++ escape text := rfl
      rw [hcons] at hfuel ⊢
      rcases escapeChar_cases c with ⟨entity, hmem, hescape⟩ | ⟨⟨hamp, hlt, hgt⟩, hescape⟩
      · have hpos : ∀ e ∈ POLICY_V1.entities, 0 < e.2.length := by decide
        have hlength := hpos _ hmem
        rw [hescape] at hfuel ⊢
        cases fuel with
        | zero =>
          rw [length_append] at hfuel
          dsimp only at hlength
          omega
        | succ fuel =>
          rw [length_append] at hfuel
          rw [decodeLoop_entity hmem, ih fuel (by dsimp only at hlength; omega)]
          rfl
      · rw [hescape] at hfuel ⊢
        cases fuel with
        | zero => simp at hfuel
        | succ fuel =>
          rw [singleton_append, length_cons] at hfuel
          rw [singleton_append, decodeLoop_plain (by simp [plainChar, hamp, hlt, hgt]),
            ih (fuel + 1) (by omega)]
          rfl
  exact hloop _ (Nat.le_refl _)

/-! ## Tags -/

theorem stripped_append (start rest : Text) : stripped start (start ++ rest) = some rest := by
  simp [stripped]

theorem splitOnce_append (h : c ∉ text) (rest : Text) :
    splitOnce [c] (text ++ c :: rest) = some (text, rest) := by
  induction text with
  | nil => simp [splitOnce]
  | cons d text ih =>
    simp only [mem_cons, not_or] at h
    have hne : [c].isPrefixOf (d :: (text ++ c :: rest)) = false := by simp [List.isPrefixOf, h.1]
    rw [cons_append, splitOnce, hne, ih h.2]
    rfl

/-- The characters of a class or an id. -/
def IsValue (value : Text) : Prop :=
  value ≠ [] ∧ '"' ∉ value ∧ (value.all fun c => nameChar c || c = '-') = true

theorem isValue_class (c : InertPage.Class) : IsValue c.name := by
  cases c <;> exact ⟨by decide, by decide, by decide⟩

theorem isValue_id (h : IdForm id) : IsValue id := by
  refine ⟨?_, (plainAttribute_id h).quote, ?_⟩
  · obtain ⟨first, rest, rfl, -⟩ := h
    simp
  obtain ⟨first, rest, rfl, hfirst, -, hrest⟩ := h
  rw [all_eq_true]
  intro c hc
  rcases mem_cons.mp hc with rfl | hc
  · simp [nameChar, hfirst]
  · rcases hrest c hc with h | h | h <;> simp [nameChar, h]

theorem attributesAt_end : attributesAt (fuel + 1) seenClass seenId (">" ++ k) =
      some (seenClass || seenId, k) := by
  rw [attributesAt, stripped_append]

/-- One attribute is read. -/
theorem attributesAt_attribute (isClass : Bool) (hvalue : IsValue value)
    (hseen : (if isClass then seenClass else seenId) = false) :
    attributesAt (fuel + 1) seenClass seenId
        (attributeText (if isClass then className else idName) (some value) ++ k) =
      attributesAt fuel (seenClass || isClass) (seenId || !isClass) k := by
  obtain ⟨hne, hquote, hall⟩ := hvalue
  have hsplit : splitOnce "\"" (value ++ "\"" ++ k) = some (value, k) := by
    simpa using splitOnce_append hquote k
  have hgt : ∀ rest, stripped ">" (" " ++ rest) = none := fun _ => rfl
  have hclass : ∀ rest, stripped "class=\"" ("id=\"" ++ rest) = none := fun _ => rfl
  cases isClass with
  | true =>
    have htext : attributeText className (some value) ++ k =
        " " ++ ("class=\"" ++ (value ++ "\"" ++ k)) := by
      simp [attributeText, className]
    simp only [if_true] at hseen ⊢
    rw [attributesAt, htext]
    simp only [Option.bind_eq_bind, Option.bind_some, stripped_append, hsplit, hseen, hne, hall]
    rfl
  | false =>
    have htext : attributeText idName (some value) ++ k =
        " " ++ ("id=\"" ++ (value ++ "\"" ++ k)) := by
      simp [attributeText, idName]
    simp only [Bool.false_eq_true, if_false] at hseen ⊢
    rw [attributesAt, htext, hgt]
    simp only [Option.bind_eq_bind, Option.bind_some, hclass, stripped_append, Option.map_some,
      hsplit, hseen, hne, hall, Bool.not_true, Bool.false_or, decide_false, if_false,
      Bool.false_eq_true]

theorem attributesAt_class (c : InertPage.Class) : attributesAt (fuel + 1) false false
        (attributeText className (some c.name) ++ k) =
      attributesAt fuel true false k :=
  attributesAt_attribute true (isValue_class c) rfl

theorem attributesAt_id (h : IdForm id) :
    attributesAt (fuel + 1) seenClass false (attributeText idName (some id) ++ k) =
      attributesAt fuel seenClass true k := by
  have hat : attributesAt (fuel + 1) seenClass false
      (attributeText idName (some id) ++ k) = attributesAt fuel (seenClass || false) true k :=
    attributesAt_attribute false (isValue_id h) rfl
  rwa [Bool.or_false] at hat

/-- Whether a tag has attributes. -/
def hasAttributes (attrs : Attrs) : Bool := attrs.cls.isSome || attrs.id.isSome

include hid in
/-- The attributes of a tag are read, up to its end. -/
theorem attributesAt_render (hfuel : (attrs.render ++ (">" ++ k)).length < fuel) :
    attributesAt fuel false false (attrs.render ++ (">" ++ k)) = some (hasAttributes attrs, k) := by
  obtain ⟨cls, id⟩ := attrs
  cases cls with
  | none =>
    cases id with
    | none =>
      obtain ⟨fuel, rfl⟩ : ∃ n, fuel = n + 1 := ⟨fuel - 1, by omega⟩
      exact attributesAt_end
    | some id =>
      have hlength : 2 ≤ fuel := by
        simp [Attrs.render, attributeText] at hfuel
        omega
      obtain ⟨fuel, rfl⟩ : ∃ n, fuel = n + 2 := ⟨fuel - 2, by omega⟩
      exact (attributesAt_id (hid id rfl)).trans attributesAt_end
  | some c =>
    cases id with
    | none =>
      have hlength : 2 ≤ fuel := by
        simp at hfuel
        omega
      obtain ⟨fuel, rfl⟩ : ∃ n, fuel = n + 2 := ⟨fuel - 2, by omega⟩
      simp only [Attrs.render, attributeText, append_nil]
      exact (attributesAt_class c).trans attributesAt_end
    | some id =>
      have hlength : 3 ≤ fuel := by
        simp [Attrs.render, attributeText] at hfuel
        omega
      obtain ⟨fuel, rfl⟩ : ∃ n, fuel = n + 3 := ⟨fuel - 3, by omega⟩
      simp only [Attrs.render, Option.map_some]
      rw [append_assoc, attributesAt_class, attributesAt_id (hid id rfl)]
      exact attributesAt_end

theorem isName_tag (tag : Tag) : isName tag.name = true := by cases tag <;> decide

include hid in
/-- A start tag is read as what it was written from. -/
theorem tagAt_startText (tag : Tag) :
    tagAt (startText tag attrs ++ k) = some (.opened tag.name (hasAttributes attrs), k) := by
  have htext : startText tag attrs ++ k = "<" ++ (tag.name ++ (attrs.render ++ (">" ++ k))) := by
    simp [startText]
  have hslash : stripped "/" (tag.name ++ (attrs.render ++ (">" ++ k))) = none := by
    cases tag <;> rfl
  -- what follows the name is a space or the end of the tag
  have hname : (tag.name ++ (attrs.render ++ (">" ++ k))).takeWhile
      (fun c => c ≠ ' ' && c ≠ '>') = tag.name := by
    have hin : ∀ c ∈ tag.name, (c ≠ ' ' && c ≠ '>') = true := by
      have hall : (tag.name.all fun c => c ≠ ' ' && c ≠ '>') = true := by cases tag <;> decide
      exact all_eq_true.mp hall
    rw [takeWhile_append_of_pos hin]
    obtain ⟨cls, id⟩ := attrs
    cases cls <;> cases id <;> simp [Attrs.render, attributeText]
  have hrest : attrs.render ++ (">".toList ++ k) ≠ [] := by simp
  rw [tagAt, htext, stripped_append]
  simp only [Option.bind_eq_bind, Option.bind_some, hslash, hname, drop_left, isName_tag,
    hrest, decide_false, Bool.not_true, Bool.or_false, Bool.false_eq_true, if_false,
    attributesAt_render hid (Nat.lt_succ_self _)]

/-- An end tag is read as what it was written from. -/
theorem tagAt_endText (tag : Tag) : tagAt (endText tag ++ k) = some (.closed tag.name, k) := by
  have htext : endText tag ++ k = "<" ++ ("/" ++ (tag.name ++ '>' :: k)) := by simp [endText]
  have hgt : '>' ∉ tag.name := by cases tag <;> decide
  rw [tagAt, htext]
  simp only [Option.bind_eq_bind, Option.bind_some, stripped_append]
  rw [show ">" = ['>'] from rfl, splitOnce_append hgt]
  simp [isName_tag]

/-! ## Leaf lines -/

/-- A tag in a leaf line is passed over, showing this text. -/
theorem inlineLoop_tag {token shown : Text} {tag : TagAt} (hhead : token.head? = some '<')
    (htag : tagAt (token ++ rest) = some (tag, rest)) (hshown : shownTag tag = some shown) :
    inlineLoop (fuel + 1) (token ++ rest) = (inlineLoop fuel rest).map (shown ++ ·) := by
  have hne : token ++ rest ≠ [] := by
    rintro h
    simp [append_eq_nil_iff.mp h] at hhead
  have hlt : (token ++ rest).head? = some '<' := by
    rw [List.head?_append, hhead]
    rfl
  rw [inlineLoop, if_neg hne, if_pos hlt, htag]
  simp only [Option.bind_eq_bind, Option.bind_some, hshown]
  cases inlineLoop fuel rest with
  | none | some out => rfl

theorem lt_not_mem_escape (text : Text) : '<' ∉ escape text := by
  intro hmem
  obtain ⟨c, -, hc⟩ := mem_flatMap.mp hmem
  rcases escapeChar_cases c with ⟨entity, hentity, hescape⟩ | ⟨⟨-, hlt, -⟩, hescape⟩
  · have hentities : ∀ e ∈ POLICY_V1.entities, '<' ∉ e.2 := by decide
    exact hentities _ hentity (hescape ▸ hc)
  · rw [hescape, mem_singleton] at hc
    exact hlt hc.symm

/-- A run of text in a leaf line is shown decoded. -/
theorem inlineLoop_text (ht : t ≠ []) (hrest : rest = [] ∨ rest.head? = some '<') :
    inlineLoop (fuel + 1) (escape t ++ rest) = (inlineLoop fuel rest).map (t ++ ·) := by
  have hplain := lt_not_mem_escape t
  have hne : escape t ≠ [] := by
    intro h
    have hlength := Parser.length_le_escape t
    rw [h, length_nil, Nat.le_zero, length_eq_zero_iff] at hlength
    exact ht hlength
  have hhead : (escape t ++ rest).head? ≠ some '<' := by
    obtain ⟨c, tail, hcons⟩ := exists_cons_of_ne_nil hne
    rw [hcons]
    rintro h
    exact hplain (by rw [hcons, Option.some.inj h]; simp)
  have htake : (escape t ++ rest).takeWhile (fun c => c ≠ '<') = escape t := by
    have hall : ∀ c ∈ escape t, decide (c ≠ '<') = true := by
      intro c hc
      have : c ≠ '<' := by
        rintro rfl
        exact hplain hc
      simpa using this
    rw [takeWhile_append_of_pos hall]
    cases rest with
    | nil => simp
    | cons c rest =>
      have hc : c = '<' := by simpa using hrest
      simp [hc]
  rw [inlineLoop, if_neg (by simp [hne]), if_neg hhead]
  simp only [htake, drop_left, decode_escape]
  cases inlineLoop fuel rest with
  | none | some out => rfl

theorem spanTag_mem (tag : SpanTag) : tag.tag.name ∈ spans ∧ tag.tag.name ≠ "br" := by
  cases tag <;> decide

/-- Inline content is read as its flattened text, up to a tag or the end. -/
theorem inlineLoop_render (hformed : content.Formed) (hids : content.extent.IdForms)
    (fuel : Nat) (hk : k = [] ∨ k.head? = some '<') (hfuel : (content.render ++ k).length ≤ fuel) :
    ∃ fuel', k.length ≤ fuel' ∧
      inlineLoop fuel (content.render ++ k) = (inlineLoop fuel' k).map (content.flatten ++ ·) := by
  induction content generalizing fuel k with
  | nil => exact ⟨fuel, hfuel, by simp [Inlines.render, Inlines.flatten]⟩
  | text t rest ih =>
    obtain ⟨hne, hrest, hformed⟩ := hformed
    have hstop : rest.render ++ k = [] ∨ (rest.render ++ k).head? = some '<' := by
      cases rest with
      | nil => exact hk
      | text t rest => cases hrest
      | br rest | span tag attrs inlines rest => exact .inr rfl
    have hescape := length_pos_iff.mpr hne
    have hlength := Parser.length_le_escape t
    rw [Inlines.render, append_assoc] at hfuel ⊢
    rw [length_append] at hfuel
    obtain ⟨fuel, rfl⟩ : ∃ n, fuel = n + 1 := ⟨fuel - 1, by omega⟩
    obtain ⟨fuel', hfuel', hloop⟩ := ih hformed hids fuel hk (by omega)
    refine ⟨fuel', hfuel', ?_⟩
    rw [inlineLoop_text hne hstop, hloop]
    simp [Inlines.flatten, Function.comp_def]
  | br rest ih =>
    rw [Inlines.render, append_assoc] at hfuel ⊢
    rw [length_append] at hfuel
    have hpos : 0 < (startText .br .none).length := by decide
    obtain ⟨fuel, rfl⟩ : ∃ n, fuel = n + 1 := ⟨fuel - 1, by omega⟩
    obtain ⟨fuel', hfuel', hloop⟩ := ih hformed hids fuel hk (by omega)
    refine ⟨fuel', hfuel', ?_⟩
    rw [inlineLoop_tag rfl (tagAt_startText (by simp [Attrs.none]) .br) rfl, hloop, Option.map_map]
    rfl
  | span tag attrs inlines rest ihInlines ihRest =>
    obtain ⟨-, hinlines, hrest⟩ := hformed
    obtain ⟨hspan, hids⟩ := idForm_of_append hids
    obtain ⟨hattrs, hinside⟩ := idForm_of_element hspan
    obtain ⟨hmem, hbr⟩ := spanTag_mem tag
    rw [Inlines.render, append_assoc, append_assoc, append_assoc] at hfuel ⊢
    rw [length_append] at hfuel
    have hstart : 0 < (startText tag.tag attrs).length := by simp [startText]
    have hend : 0 < (endText tag.tag).length := by simp [endText]
    obtain ⟨fuel, rfl⟩ : ∃ n, fuel = n + 1 := ⟨fuel - 1, by omega⟩
    -- the content of the span goes up to its end tag
    have hk' : (endText tag.tag ++ (rest.render ++ k)).head? = some '<' := rfl
    obtain ⟨fuel₁, hfuel₁, hloop₁⟩ := ihInlines hinlines hinside fuel (.inr hk') (by omega)
    rw [length_append] at hfuel₁
    obtain ⟨fuel₁, rfl⟩ : ∃ n, fuel₁ = n + 1 := ⟨fuel₁ - 1, by omega⟩
    obtain ⟨fuel₂, hfuel₂, hloop₂⟩ := ihRest hrest hids fuel₁ hk (by omega)
    refine ⟨fuel₂, hfuel₂, ?_⟩
    have hopened : shownTag (.opened tag.tag.name (hasAttributes attrs)) = some [] := by
      simp only [shownTag, hbr, false_and, if_false, hmem, if_true]
    have hclosed : shownTag (.closed tag.tag.name) = some [] := by
      simp only [shownTag, hmem, if_true]
    rw [inlineLoop_tag rfl (tagAt_startText hattrs tag.tag) hopened, hloop₁,
      inlineLoop_tag rfl (tagAt_endText tag.tag) hclosed, hloop₂]
    simp [Inlines.flatten, Function.comp_def]

theorem inlineText_render (hformed : content.Formed) (hids : content.extent.IdForms) :
    inlineText content.render = some content.flatten := by
  obtain ⟨fuel, -, hloop⟩ : ∃ fuel, ([] : Text).length ≤ fuel ∧
      inlineLoop content.render.length (content.render ++ []) =
        (inlineLoop fuel []).map (content.flatten ++ ·) :=
    inlineLoop_render hformed hids _ (.inl rfl) (by simp)
  rw [append_nil] at hloop
  rw [inlineText, hloop]
  cases fuel <;> simp [inlineLoop]

/-- A needle does not start in a text, whatever follows it. -/
def Clear (needle : Text) : Text → Prop
  | [] => True
  | c :: rest => ¬needle <+: c :: rest ∧ ¬(c :: rest) <+: needle ∧ Clear needle rest

instance decidableClear (needle : Text) : (text : Text) → Decidable (Clear needle text)
  | [] => .isTrue trivial
  | _ :: rest => @instDecidableAnd _ _ _ (@instDecidableAnd _ _ _ (decidableClear needle rest))

/-- A text a needle could not start in is not grown into the needle. -/
theorem not_prefix_append (h : ¬needle <+: s) (h' : ¬s <+: needle) : ¬needle <+: s ++ t := by
  intro hneedle
  rcases prefix_or_prefix_of_prefix hneedle (prefix_append s t) with hpre | hpre
  · exact h hpre
  · exact h' hpre

theorem Clear.append (hs : Clear needle s) (ht : Clear needle t) : Clear needle (s ++ t) := by
  induction s with
  | nil => exact ht
  | cons c s ih =>
    obtain ⟨hhere, hback, hs⟩ := hs
    exact ⟨not_prefix_append hhere hback,
      fun h => hback ((prefix_append (c :: s) t).trans h), ih hs⟩

theorem clear_plain (h : c ∉ text) : Clear (c :: needle) text := by
  induction text with
  | nil => trivial
  | cons d text ih =>
    simp only [mem_cons, not_or] at h
    refine ⟨?_, ?_, ih h.2⟩
    · simp [h.1]
    · simp [Ne.symm h.1]

/-- The search goes past a text that is clear of its needle. -/
theorem splitOnce_clear (h : Clear needle text) (rest : Text) : splitOnce needle (text ++ rest) =
      (splitOnce needle rest).map fun parts => (text ++ parts.1, parts.2) := by
  induction text with
  | nil => simp
  | cons c text ih =>
    obtain ⟨hhere, hback, htext⟩ := h
    have hnot : ¬needle.isPrefixOf (c :: (text ++ rest)) = true := by
      rw [ isPrefixOf_iff_prefix]
      exact not_prefix_append hhere hback
    rw [cons_append, splitOnce, if_neg hnot, ih htext]
    simp [Function.comp_def]

/-- The search stops at its needle. -/
theorem splitOnce_here (hne : needle ≠ []) (rest : Text) :
    splitOnce needle (needle ++ rest) = some ([], rest) := by
  obtain ⟨c, tail, rfl⟩ := exists_cons_of_ne_nil hne
  simp [splitOnce]

/-! ## The lines of the body -/

/-- The tag of the tree a leaf tag stands for. -/
def LeafTag.tag : LeafTag → Tag
  | .h1 => .h1
  | .h2 => .h2
  | .h3 => .h3
  | .p => .p
  | .li => .li
  | .address => .address

theorem LeafTag.tag_injective : Function.Injective LeafTag.tag := by
  intro a b h
  cases a <;> cases b <;> first | rfl | cases h

variable {tag : Tag}

theorem strippedEnd_append (text ending : Text) :
    strippedEnd ending (text ++ ending) = some text := by
  simp [strippedEnd]

/-- The line of a leaf is read as its tag and its flattened text. -/
theorem readLine_leaf (t : LeafTag) (hformed : l.Formed) (hids : l.extent.IdForms) :
    readLine (startText t.tag l.attrs ++ l.inlines.render ++ endText t.tag) =
      some (some { tag := t, text := l.inlines.flatten }) := by
  obtain ⟨hattrs, hinside⟩ := idForm_of_element hids
  have hcontainer : t.tag.name ∉ containers := by cases t <;> decide
  have hfind : LeafTag.all.find? (fun t' => t'.name = t.tag.name) = some t := by cases t <;> rfl
  have hend : l.inlines.render ++ endText t.tag =
      l.inlines.render ++ "</" ++ t.tag.name ++ ">" := by
    simp [endText]
  rw [append_assoc, readLine, tagAt_startText hattrs t.tag]
  simp only [Option.bind_eq_bind, Option.bind_some, hcontainer, readLeaf, hfind, hend,
    strippedEnd_append, inlineText_render hformed.inlines hinside]
  rfl

include hid in
/-- The lines of a container show nothing. -/
theorem readLine_container (htag : tag.name ∈ containers) :
    readLine (startText tag attrs) = some none ∧ readLine (endText tag) = some none := by
  have hstart := tagAt_startText hid tag (k := [])
  have hend := tagAt_endText tag (k := [])
  rw [append_nil] at hstart hend
  simp [readLine, hstart, hend, htag]

/-- What a line shows: the tag and the text of its leaf. -/
def VisibleLine.shown (l : VisibleLine) : Tag × Text := (l.tag.tag, l.text)

/-- The end of the body. -/
def bodyEnd : Text := "</body>\n"

/-- A part of the body: lines, each ended by a line feed, in which the reader reads these
leaves, and in which the body does not end. -/
structure Shows (text : Text) (leaves : List (Tag × Text)) : Prop where
  lines : ∃ (parts : List Text) (lines : List VisibleLine), text = parts.flatMap (· ++ ['\n']) ∧
    (∀ part ∈ parts, '\n' ∉ part) ∧ readLines parts = some lines ∧
    lines.map VisibleLine.shown = leaves
  clear : Clear bodyEnd text

theorem shows_nil : Shows [] [] := ⟨⟨[], [], rfl, by simp, rfl, rfl⟩, trivial⟩

theorem readLines_append {a b : List Text} {as bs : List VisibleLine} (ha : readLines a = some as)
    (hb : readLines b = some bs) : readLines (a ++ b) = some (as ++ bs) := by
  induction a generalizing as with
  | nil =>
    cases ha
    exact hb
  | cons line a ih =>
    rw [readLines, Option.bind_eq_bind, Option.bind_eq_some_iff] at ha
    obtain ⟨leaf, hleaf, ha⟩ := ha
    rw [Option.bind_eq_bind, Option.bind_eq_some_iff] at ha
    obtain ⟨rest, hrest, ha⟩ := ha
    cases ha
    rw [cons_append, readLines, hleaf]
    simp [ih hrest]

theorem Shows.append {as bs : List (Tag × Text)} (hs : Shows s as) (ht : Shows t bs) :
    Shows (s ++ t) (as ++ bs) := by
  obtain ⟨⟨parts, lines, rfl, hplain, hread, rfl⟩, hclear⟩ := hs
  obtain ⟨⟨parts', lines', rfl, hplain', hread', rfl⟩, hclear'⟩ := ht
  refine ⟨⟨parts ++ parts', lines ++ lines', by simp, ?_, readLines_append hread hread',
    by simp⟩, hclear.append hclear'⟩
  intro part hpart
  rcases mem_append.mp hpart with h | h
  · exact hplain part h
  · exact hplain' part h

theorem shows_flatMap {α : Type} {render : α → Text} {shown : α → List (Tag × Text)}
    {items : List α} (h : ∀ item ∈ items, Shows (render item) (shown item)) :
    Shows (items.flatMap render) (items.flatMap shown) := by
  induction items with
  | nil => exact shows_nil
  | cons item items ih =>
    exact (h item (by simp)).append (ih fun other hother => h other (by simp [hother]))

/-- One line. -/
theorem shows_line {line : Text} {leaf : Option VisibleLine} (hplain : '\n' ∉ line)
    (hclear : Clear bodyEnd line) (hread : readLine line = some leaf) :
    Shows (line ++ "\n") (leaf.toList.map VisibleLine.shown) :=
  ⟨⟨[line], leaf.toList, by simp, by simpa using hplain, by simp [readLines, hread], rfl⟩,
    hclear.append (clear_plain (by decide))⟩

/-! ### No line feed inside a line -/

theorem lineFeed_not_mem_escape (h : '\n' ∉ text) : '\n' ∉ escape text := by
  intro hmem
  obtain ⟨c, hc, hmem⟩ := mem_flatMap.mp hmem
  rcases escapeChar_cases c with ⟨entity, hentity, hescape⟩ | ⟨-, hescape⟩
  · have hentities : ∀ e ∈ POLICY_V1.entities, '\n' ∉ e.2 := by decide
    exact hentities _ hentity (hescape ▸ hmem)
  · rw [hescape, mem_singleton] at hmem
    exact h (hmem ▸ hc)

/-- A character that is none of names, values and the syntax of attributes. -/
def Foreign (c : Char) : Prop := nameChar c = false ∧ c ∉ ['-', ' ', '=', '"', '>']

theorem Foreign.not_mem_value (hc : Foreign c) (h : IsValue value) : c ∉ value := by
  intro hmem
  have hchar := all_eq_true.mp h.2.2 _ hmem
  simp only [hc.1, Bool.false_or, decide_eq_true_eq] at hchar
  exact hc.2 (by simp [hchar])

include hid in
/-- Such a character is in no tag after its `<`. -/
theorem Foreign.not_mem_tag (tag : Tag) (hc : Foreign c) :
    c ∉ tag.name ++ (attrs.render ++ ">") := by
  have hname : ∀ {name : Text}, name.all nameChar = true → c ∉ name := by
    intro name hall hmem
    exact absurd (all_eq_true.mp hall c hmem) (by simp [hc.1])
  have htag : c ∉ tag.name := hname (by cases tag <;> decide)
  have hclass : c ∉ className := hname (by decide)
  have hidName : c ∉ idName := hname (by decide)
  have hsyntax := hc.2
  simp only [mem_cons, not_or] at hsyntax
  obtain ⟨-, hspace, heq, hquote, hgt⟩ := hsyntax
  obtain ⟨cls, id⟩ := attrs
  have hcls : c ∉ attributeText className (cls.map Class.name) := by
    cases cls with
    | none => simp [attributeText]
    | some cl =>
      simp [attributeText, hclass, hspace, heq, hquote, hc.not_mem_value (isValue_class cl)]
  have hidText : c ∉ attributeText idName id := by
    cases id with
    | none => simp [attributeText]
    | some id =>
      simp [attributeText, hidName, hspace, heq, hquote, hc.not_mem_value (isValue_id (hid id rfl))]
  simp [Attrs.render, htag, hcls, hidText, hgt]

theorem startText_eq : startText tag attrs = '<' :: (tag.name ++ (attrs.render ++ ">")) := by
  simp [startText]

include hid in
theorem lineFeed_not_mem_startText : '\n' ∉ startText tag attrs := by
  have hforeign : Foreign '\n' := ⟨by decide, by decide⟩
  rw [startText_eq, mem_cons, not_or]
  exact ⟨by decide, hforeign.not_mem_tag hid tag⟩

theorem lineFeed_not_mem_endText : '\n' ∉ endText tag := by cases tag <;> decide

theorem lineFeed_not_mem_inlines (hflat : '\n' ∉ content.flatten) (hids : content.extent.IdForms) :
    '\n' ∉ content.render := by
  induction content with
  | nil => simp [Inlines.render]
  | text t rest ih =>
    simp only [Inlines.flatten, mem_append, not_or] at hflat
    simp only [Inlines.render, mem_append, not_or]
    exact ⟨lineFeed_not_mem_escape hflat.1, ih hflat.2 hids⟩
  | br rest ih =>
    simp only [Inlines.flatten, mem_cons, not_or] at hflat
    simp only [Inlines.render, mem_append, not_or]
    exact ⟨lineFeed_not_mem_startText (by simp [Attrs.none]), ih hflat.2 hids⟩
  | span tag attrs inlines rest ihInlines ihRest =>
    simp only [Inlines.flatten, mem_append, not_or] at hflat
    obtain ⟨hspan, hids⟩ := idForm_of_append hids
    obtain ⟨hattrs, hinside⟩ := idForm_of_element hspan
    simp only [Inlines.render, mem_append, not_or]
    exact ⟨⟨⟨lineFeed_not_mem_startText hattrs, ihInlines hflat.1 hinside⟩,
      lineFeed_not_mem_endText⟩, ihRest hflat.2 hids⟩

include hid in
theorem clear_startText : Clear bodyEnd (startText tag attrs) := by
  have hforeign : Foreign '<' := ⟨by decide, by decide⟩
  have hrest := hforeign.not_mem_tag hid tag
  obtain ⟨c, name, hname, hc⟩ : ∃ c name, tag.name = c :: name ∧ c ≠ '/' := by
    cases tag <;> exact ⟨_, _, rfl, by decide⟩
  have hend : bodyEnd = '<' :: '/' :: "body>\n" := by decide
  rw [startText_eq]
  refine ⟨?_, ?_, hend ▸ clear_plain hrest⟩
  · rw [hend, hname]
    simp [Ne.symm hc]
  · rw [hend, hname]
    simp [hc]

theorem clear_endText : Clear bodyEnd (endText tag) := by cases tag <;> decide

theorem clear_escape (text : Text) : Clear bodyEnd (escape text) :=
  clear_plain (lt_not_mem_escape text)

theorem clear_inlines (hids : content.extent.IdForms) : Clear bodyEnd content.render := by
  induction content with
  | nil => trivial
  | text t rest ih => exact (clear_escape t).append (ih hids)
  | br rest ih => exact (clear_startText (by simp [Attrs.none])).append (ih hids)
  | span tag attrs inlines rest ihInlines ihRest =>
    obtain ⟨hspan, hids⟩ := idForm_of_append hids
    obtain ⟨hattrs, hinside⟩ := idForm_of_element hspan
    exact (((clear_startText hattrs).append (ihInlines hinside)).append
      clear_endText).append (ihRest hids)

/-! ### The lines of a tree -/

theorem shows_leaf (t : LeafTag) (hformed : l.Formed) (hids : l.extent.IdForms) :
    Shows (l.render t.tag) [(t.tag, l.inlines.flatten)] := by
  obtain ⟨hattrs, hinside⟩ := idForm_of_element hids
  refine shows_line ?_ ?_ (readLine_leaf t hformed hids)
  · simp only [mem_append, not_or]
    exact ⟨⟨lineFeed_not_mem_startText hattrs,
      lineFeed_not_mem_inlines hformed.spacing.noLineFeed hinside⟩, lineFeed_not_mem_endText⟩
  · exact ((clear_startText hattrs).append (clear_inlines hinside)).append clear_endText

include hid in
theorem shows_container (htag : tag.name ∈ containers) {children : Text} {leaves : List (Tag × Text)}
    (hchildren : Shows children leaves) : Shows (containerText tag attrs children) leaves := by
  obtain ⟨hstart, hend⟩ := readLine_container hid htag
  have hopen := shows_line (lineFeed_not_mem_startText hid) (clear_startText hid) hstart
  have hclose := shows_line lineFeed_not_mem_endText clear_endText hend
  have hall := (hopen.append hchildren).append hclose
  simpa [containerText] using hall

/-- A leaf with its tag, as it is shown. -/
def shownLeaf (leaf : Tag × Leaf) : Tag × Text := (leaf.1, leaf.2.inlines.flatten)

theorem shows_block {b : Block} (hformed : b.Formed) (hids : b.extent.IdForms) :
    Shows b.render (b.leaves.map shownLeaf) := by
  cases b with
  | leaf tag l =>
    cases tag with
    | h1 => exact shows_leaf .h1 hformed hids
    | h2 => exact shows_leaf .h2 hformed hids
    | h3 => exact shows_leaf .h3 hformed hids
    | p => exact shows_leaf .p hformed hids
    | address => exact shows_leaf .address hformed hids
  | list tag l =>
    obtain ⟨hattrs, hitems⟩ := idForm_of_element hids
    have hcontainer : tag.tag.name ∈ containers := by cases tag <;> decide
    have hleaves : Shows (l.items.flatMap (Leaf.render .li))
        (l.items.flatMap fun item => [(.li, item.inlines.flatten)]) :=
      shows_flatMap fun item hitem =>
        shows_leaf .li (hformed.2 item hitem) (idForm_of_concat hitems hitem)
    have hmap : (l.items.flatMap fun item => [(Tag.li, item.inlines.flatten)]) =
        (Block.list tag l).leaves.map shownLeaf := by
      rw [← map_eq_flatMap, Block.leaves, map_map]
      rfl
    exact hmap ▸ shows_container hattrs hcontainer hleaves

theorem shows_blocks (htag : tag.name ∈ containers) {blocks : List Block}
    (hformed : BlocksFormed blocks) (hids : (blocksExtent attrs blocks).IdForms) :
    Shows (blocksText tag attrs blocks) ((blocks.flatMap Block.leaves).map shownLeaf) := by
  obtain ⟨hattrs, hinside⟩ := idForm_of_element hids
  rw [map_flatMap]
  exact shows_container hattrs htag (shows_flatMap fun b hb =>
    shows_block (hformed.2 b hb) (idForm_of_concat hinside hb))

theorem shows_region (htag : tag.name ∈ containers) {r : Option Region}
    (hformed : ∀ r', r = some r' → BlocksFormed r'.blocks) (hids : (regionExtent r).IdForms) :
    Shows (regionText tag r) ((regionLeaves r).map shownLeaf) := by
  cases r with
  | none => exact shows_nil
  | some r => exact shows_blocks htag (hformed r rfl) hids

/-- The body of a page shows its leaves, in document order. -/
theorem shows_renderBody (h : page.WellFormed) :
    Shows page.renderBody (page.leaves.map shownLeaf) := by
  obtain ⟨hheader, hrest⟩ := idForm_of_append h.ids
  obtain ⟨hmain, hfooter⟩ := idForm_of_append hrest
  obtain ⟨hattrs, hitems⟩ := idForm_of_element hmain
  have hheader : Shows (regionText .header page.header)
      ((regionLeaves page.header).map shownLeaf) :=
    shows_region (by decide) h.header hheader
  have hfooter : Shows (regionText .footer page.footer)
      ((regionLeaves page.footer).map shownLeaf) :=
    shows_region (by decide) h.footer hfooter
  have hmain : Shows (containerText .main page.main.attrs
      (page.main.items.flatMap MainItem.render))
      ((page.main.items.flatMap MainItem.leaves).map shownLeaf) := by
    rw [map_flatMap]
    refine shows_container hattrs (by decide) (shows_flatMap fun item hitem => ?_)
    have hitemIds := idForm_of_concat hitems hitem
    have hitemFormed := h.main.2 item hitem
    cases item with
    | sect s => exact shows_blocks (by decide) hitemFormed hitemIds
    | block b => exact shows_block hitemFormed hitemIds
  have hall := (hheader.append hmain).append hfooter
  simpa [Page.renderBody, Page.leaves] using hall

/-! ## The document -/

/-- What stands between a first `opening` and the next `closing`. -/
theorem between_append {opening closing a inner : Text} (hopening : opening ≠ [])
    (hclosing : closing ≠ []) (ha : Clear opening a) (hinner : Clear closing inner) :
    between (a ++ (opening ++ (inner ++ (closing ++ rest)))) opening closing = some inner := by
  rw [between, splitOnce_clear ha, splitOnce_here hopening]
  simp only [Option.map_some, Option.bind_eq_bind, Option.bind_some]
  rw [splitOnce_clear hinner, splitOnce_here hclosing]
  simp

theorem clear_lang {lang : Text} (h : LangForm lang) : Clear ('<' :: needle) lang :=
  clear_plain (plainAttribute_lang h).lt

/-- The text between the title's tags, in the text of a page. -/
theorem between_title (h : page.WellFormed) :
    between page.render "<title>" "</title>" = some (escape page.title) := by
  obtain ⟨start, hstart, hclear⟩ : ∃ start, afterLang = start ++ "<title>" ∧
      Clear "<title>" start :=
    ⟨afterLang.take (afterLang.length - 7), by decide, by decide +kernel⟩
  obtain ⟨rest, hrest⟩ : ∃ rest, afterTitle = "</title>" ++ rest := ⟨afterTitle.drop 8, by decide⟩
  have hrender : page.render = (head ++ page.lang ++ start) ++ ("<title>" ++
      (escape page.title ++ ("</title>" ++ (rest ++ css ++ afterCss ++
        page.renderBody ++ epilogue)))) := by
    rw [Page.render, hstart, hrest]
    simp only [append_assoc]
  rw [hrender]
  refine between_append (by decide) (by decide) ?_ (clear_plain (lt_not_mem_escape _))
  have hhead : Clear "<title>" head := by decide
  exact (hhead.append (clear_lang h.lang)).append hclear

/-- The text between the body's tags, in the text of a page. -/
theorem between_body (h : page.WellFormed) :
    between page.render "<body>\n" bodyEnd = some page.renderBody := by
  obtain ⟨start, hstart, hclear⟩ : ∃ start, afterCss = start ++ "<body>\n" ∧
      Clear "<body>\n" start :=
    ⟨afterCss.take (afterCss.length - 7), by decide, by decide⟩
  obtain ⟨rest, hrest⟩ : ∃ rest, epilogue = bodyEnd ++ rest := ⟨epilogue.drop 8, by decide⟩
  have hrender : page.render = (head ++ page.lang ++ afterLang ++
      escape page.title ++ afterTitle ++ css ++ start) ++
      ("<body>\n" ++ (page.renderBody ++ (bodyEnd ++ rest))) := by
    rw [Page.render, hstart, hrest]
    simp only [append_assoc]
  rw [hrender]
  refine between_append (by decide) (by decide) ?_ (shows_renderBody h).clear
  have hhead : Clear "<body>\n" head := by decide
  have hafterLang : Clear "<body>\n" afterLang := by decide +kernel
  have hafterTitle : Clear "<body>\n" afterTitle := by decide
  exact (((((hhead.append (clear_lang h.lang)).append hafterLang).append
    (clear_plain (lt_not_mem_escape _))).append hafterTitle).append
    (clear_plain lt_not_mem_css)).append hclear

theorem renderBody_ne_nil (page : Page) : page.renderBody ≠ [] := by
  simp [Page.renderBody, containerText]

/-- Lines ended by line feeds are lines joined by them, and one at the end. -/
theorem flatMap_lineFeed {parts : List Text} (hne : parts ≠ []) :
    parts.flatMap (· ++ ['\n']) = ['\n'].intercalate parts ++ ['\n'] := by
  induction parts with
  | nil => exact absurd rfl hne
  | cons part parts ih =>
    cases parts with
    | nil => simp
    | cons next parts =>
      rw [flatMap_cons, ih (by simp)]
      simp

/-- The second reader reads the text of a page as the page's title and leaves. -/
theorem readVisibleText_render (h : page.WellFormed) :
    ∃ text, readVisibleText (encode page.render) = some text ∧ text.title = page.title ∧
      text.lines.map VisibleLine.shown = page.leaves.map shownLeaf := by
  obtain ⟨⟨parts, lines, hbody, hplain, hread, hshown⟩, -⟩ := shows_renderBody h
  have hne : parts ≠ [] := by
    rintro rfl
    exact renderBody_ne_nil page hbody
  -- the line feed at the end goes with the last line
  have hlines : ∃ inner, page.renderBody = inner ++ "\n" ∧ inner.splitOn '\n' = parts := by
    refine ⟨['\n'].intercalate parts, ?_, splitOn_intercalate '\n' hplain hne⟩
    rw [hbody, flatMap_lineFeed hne]
    rfl
  obtain ⟨inner, hinner, hsplit⟩ := hlines
  refine ⟨{ title := page.title, lines }, ?_, rfl, hshown⟩
  have hend : "</body>\n" = bodyEnd := rfl
  rw [readVisibleText, fromUtf8_encode]
  simp only [between_title h, Option.bind_eq_bind, Option.bind_some, decode_escape, hend,
    between_body h]
  rw [hinner, strippedEnd_append]
  simp [hsplit, hread]

end NexusOs.Verifier
