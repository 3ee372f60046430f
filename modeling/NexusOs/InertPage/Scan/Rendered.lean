import NexusOs.InertPage.Grammar
import NexusOs.InertPage.Render
import NexusOs.InertPage.Scan.Findings

/-!
# The scan of a canonical text

The tag scan passes over each token of a canonical text without a finding (`Passes`), and no
declaration and only declared entities start in it (`Tidy`). So the scan of a page's text finds
nothing that its characters and needles do not give (`scan_render`).
-/

namespace NexusOs.InertPage

open Framing Utf8 POLICY_V1
open List hiding head
open LexicalFindings (ite_note_eq_none)

variable {s t text name lang : Text} {a b n fuel offset : Nat} {c : Char} {bytes rest : Bytes}
  {f : LexicalFindings} {attrs : List (Text × Text)} {α : Type} {page : Page} (close : Bool)
  (tag : Tag) {items : List α}

/-- The tag scan passes over a text without a finding, counting `style` tags from `a` to `b`. -/
def Passes (text : Text) (a b : Nat) : Prop :=
  ∀ n fuel rest f, (encode text ++ rest).length ≤ fuel →
    ∃ fuel', rest.length ≤ fuel' ∧ tags n fuel a (encode text ++ rest) f = tags n fuel' b rest f

theorem passes_nil (a : Nat) : Passes [] a a := fun _ fuel _ _ h => ⟨fuel, h, rfl⟩

theorem Passes.append {c : Nat} (hs : Passes s a b) (ht : Passes t b c) : Passes (s ++ t) a c := by
  intro n fuel rest f hfuel
  rw [encode_append, append_assoc] at hfuel ⊢
  obtain ⟨fuel₁, hfuel₁, hs⟩ := hs n fuel _ f hfuel
  obtain ⟨fuel₂, hfuel₂, ht⟩ := ht n fuel₁ rest f hfuel₁
  exact ⟨fuel₂, hfuel₂, hs.trans ht⟩

/-- Bytes that are no `<` are passed over. -/
theorem tags_plain (h : byte '<' ∉ bytes) (hfuel : (bytes ++ rest).length ≤ fuel) :
    ∃ fuel', rest.length ≤ fuel' ∧ tags n fuel a (bytes ++ rest) f = tags n fuel' a rest f := by
  induction bytes generalizing fuel with
  | nil => exact ⟨fuel, hfuel, rfl⟩
  | cons b bytes ih =>
    obtain ⟨hb, hbytes⟩ := not_or.mp (mem_cons.not.mp h)
    cases fuel with
    | zero => simp at hfuel
    | succ fuel =>
      obtain ⟨fuel', hfuel', htags⟩ := ih hbytes (Nat.le_of_succ_le_succ hfuel)
      refine ⟨fuel', hfuel', ?_⟩
      rw [cons_append, tags, if_pos (.symm hb), htags]

theorem passes_plain (h : '<' ∉ text) (a : Nat) : Passes text a a :=
  fun _ _ _ _ hfuel => tags_plain (fun hmem => h (mem_of_mem_encode (by decide) hmem)) hfuel

/-! ## Passing over attributes -/

/-- The attribute scan passes over a text without a finding. -/
def Skipped (text : Text) : Prop :=
  ∀ n fuel rest f, (encode text ++ rest).length ≤ fuel →
    ∃ fuel', rest.length ≤ fuel' ∧
      scanAttributes n fuel (encode text ++ rest) f = scanAttributes n fuel' rest f

theorem skipped_nil : Skipped [] := fun _ fuel _ _ h => ⟨fuel, h, rfl⟩

theorem Skipped.append (hs : Skipped s) (ht : Skipped t) : Skipped (s ++ t) := by
  intro n fuel rest f hfuel
  rw [encode_append, append_assoc] at hfuel ⊢
  obtain ⟨fuel₁, hfuel₁, hs⟩ := hs n fuel _ f hfuel
  obtain ⟨fuel₂, hfuel₂, ht⟩ := ht n fuel₁ rest f hfuel₁
  exact ⟨fuel₂, hfuel₂, hs.trans ht⟩

/-- The declared attribute names, as the scan sees them. -/
structure AttributeName (name : Bytes) : Prop where
  plain : ∀ b ∈ name, isSpace b = false ∧ b ≠ byte '/' ∧ b ≠ byte '>' ∧ b ≠ byte '='
  notEmpty : name ≠ []
  passes : ∀ offset f, attributeName name offset f = f

theorem attributeName_of_mem (h : name ∈ bodyAttributes ++ prologueAttributes) :
    AttributeName (encode name) := by
  simp only [bodyAttributes, prologueAttributes, cons_append,
    nil_append, mem_cons, not_mem_nil, or_false] at h
  rcases h with rfl | rfl | rfl | rfl | rfl | rfl <;>
    exact ⟨@of_decide_eq_true _ (decidableBAll _ _) rfl, by decide, fun _ _ => rfl⟩

/-- One attribute in double quotes is passed over. -/
theorem scanAttributes_attribute {name value : Bytes} (hname : AttributeName name)
    (hvalue : byte '"' ∉ value) :
    scanAttributes n (fuel + 1)
        (byte ' ' :: (name ++ byte '=' :: byte '"' :: (value ++ byte '"' :: rest))) f =
      scanAttributes n fuel rest f := by
  obtain ⟨hplain, hne, hpasses⟩ := hname
  cases name with
  | nil => exact absurd rfl hne
  | cons first name =>
    obtain ⟨hspace, hslash, hclose, -⟩ := hplain first (by simp)
    have hinName : ∀ b ∈ name,
        (!isSpace b && !(b = byte '/' || b = byte '>' || b = byte '=')) = true := by
      intro b hb
      obtain ⟨h₁, h₂, h₃, h₄⟩ := hplain b (by simp [hb])
      simp [h₁, h₂, h₃, h₄]
    have hquote : ∀ b ∈ value, (b ≠ byte '"') := fun b hb heq => hvalue (heq ▸ hb)
    have hfirst : ∀ tail : Bytes,
        (byte ' ' :: (first :: tail)).dropWhile (fun b => isSpace b || b = byte '/') =
          first :: tail := by
      intro tail
      rw [dropWhile_cons_of_pos (by decide), dropWhile_cons_of_neg (by simp [hspace, hslash])]
    rw [scanAttributes, cons_append, hfirst]
    simp only [hclose, if_false]
    rw [takeWhile_append_of_pos hinName, dropWhile_append_of_pos hinName,
      takeWhile_cons_of_neg (by decide), dropWhile_cons_of_neg (by decide),
      dropWhile_cons_of_neg (by decide), append_nil, hpasses]
    simp only [if_true]
    rw [dropWhile_cons_of_neg (by decide)]
    simp only [Bool.true_or, decide_true, if_true]
    rw [dropWhile_append_of_pos (by simpa using hquote),
      dropWhile_cons_of_neg (by simp), drop_one, tail_cons]

theorem skipped_attribute {value : Text} (hname : name ∈ bodyAttributes ++ prologueAttributes)
    (hvalue : '"' ∉ value) : Skipped (attributeText name (some value)) := by
  intro n fuel rest f hfuel
  have hbytes : encode (attributeText name (some value)) ++ rest =
      byte ' ' :: (encode name ++ byte '=' :: byte '"' :: (encode value ++ byte '"' :: rest)) := by
    have hspace : encode " " = [byte ' '] := by decide
    have heq : encode "=\"" = [byte '=', byte '"'] := by decide
    have hend : encode "\"" = [byte '"'] := by decide
    simp only [attributeText, encode_append, hspace, heq, hend, append_assoc,
      cons_append, nil_append]
  rw [hbytes] at hfuel ⊢
  cases fuel with
  | zero => simp at hfuel
  | succ fuel =>
    refine ⟨fuel, ?_, scanAttributes_attribute (attributeName_of_mem hname)
      fun hmem => hvalue (mem_of_mem_encode (by decide) hmem)⟩
    simp only [length_cons, length_append] at hfuel
    omega

/-! ## Passing over tags -/

/-- An attribute as it stands in a page: a declared name, and a value that ends with its quotes and
starts no tag or entity. -/
structure PlainAttribute (x : Text × Text) : Prop where
  name : x.1 ∈ bodyAttributes ++ prologueAttributes
  quote : '"' ∉ x.2
  lt : '<' ∉ x.2
  amp : '&' ∉ x.2

/-- A tag's name and attributes as they stand in a page. -/
def tagText (close : Bool) (name : Text) (attrs : List (Text × Text)) : Text :=
  (if close then "</".toList else "<".toList) ++
    (name ++ (attrs.flatMap (fun a => attributeText a.1 (some a.2)) ++ ">"))

/-- The declared tag names, as the scan sees them. -/
structure TagName (name : Bytes) : Prop where
  plain : ∀ b ∈ name, isSpace b = false ∧ b ≠ byte '/' ∧ b ≠ byte '>'
  alphabetic : ∃ b rest, name = b :: rest ∧ isAlphabetic b = true
  lower : name.map lowercase = name
  allowed : allowedTag name = true
  notScript : name ≠ encode scriptTag

theorem tagName_of_mem (h : name ∈ bodyTags.map Tag.name ++ headTags) : TagName (encode name) := by
  simp only [bodyTags, headTags, map_cons, map_nil,
    cons_append, nil_append, mem_cons, not_mem_nil, or_false] at h
  rcases h with rfl | rfl | rfl | rfl | rfl | rfl | rfl | rfl | rfl | rfl | rfl | rfl | rfl |
    rfl | rfl | rfl | rfl | rfl | rfl | rfl | rfl | rfl <;>
    exact ⟨@of_decide_eq_true _ (decidableBAll _ _) rfl, ⟨_, _, rfl, by decide⟩, by decide,
      by decide, by decide⟩

theorem tagName?_tag {name : Bytes} (hname : TagName name) (rest : Bytes) :
    tagName? ((if close then [byte '/'] else []) ++ (name ++ rest)) =
      some (close, name ++ rest) := by
  obtain ⟨b, tail, rfl, halpha⟩ := hname.alphabetic
  cases close with
  | false => simp [tagName?, halpha]
  | true =>
    have hslash : isAlphabetic (byte '/') = false := by decide
    simp [tagName?, halpha, hslash]

/-- The bytes of a name go on up to here. -/
def nameStops (rest : Bytes) : Prop :=
  ∀ b ∈ rest.head?, (!isSpace b && b ≠ byte '/' && b ≠ byte '>') = false

theorem takeWhile_name {name : Bytes} (hname : TagName name) (hstop : nameStops rest) :
    (name ++ rest).takeWhile (fun b => !isSpace b && b ≠ byte '/' && b ≠ byte '>') = name ∧
      (name ++ rest).dropWhile (fun b => !isSpace b && b ≠ byte '/' && b ≠ byte '>') = rest := by
  have hplain : ∀ b ∈ name, (!isSpace b && b ≠ byte '/' && b ≠ byte '>') = true := by
    intro b hb
    obtain ⟨h₁, h₂, h₃⟩ := hname.plain b hb
    simp [h₁, h₂, h₃]
  rw [takeWhile_append_of_pos hplain, dropWhile_append_of_pos hplain]
  cases rest with
  | nil => simp
  | cons b rest =>
    have hb := hstop b rfl
    rw [takeWhile_cons_of_neg (by simpa using hb),
      dropWhile_cons_of_neg (by simpa using hb), append_nil]
    exact ⟨rfl, rfl⟩

/-- Attributes start with a space. -/
theorem nameStops_attributes (attrs : List (Text × Text)) (h : nameStops rest) :
    nameStops (encode (attrs.flatMap fun x => attributeText x.1 (some x.2)) ++ rest) := by
  cases attrs with
  | nil => exact h
  | cons x attrs =>
    have hspace : String.utf8EncodeChar ' ' = [byte ' '] := by decide
    have hnot : isSpace (byte ' ') = true := by decide
    simp [nameStops, attributeText, hspace, hnot]

/-- The end of a tag ends its attributes. -/
theorem scanAttributes_end (hfuel : (byte '>' :: rest).length ≤ fuel) :
    scanAttributes n fuel (byte '>' :: rest) f = (rest, f) := by
  cases fuel with
  | zero => simp at hfuel
  | succ fuel =>
    rw [scanAttributes, dropWhile_cons_of_neg (by decide)]
    simp

theorem skipped_attributes (h : ∀ x ∈ attrs, PlainAttribute x) :
    Skipped (attrs.flatMap fun x => attributeText x.1 (some x.2)) := by
  induction attrs with
  | nil => exact skipped_nil
  | cons x attrs ih =>
    have hx := h x (by simp)
    exact (skipped_attribute hx.name hx.quote).append (ih fun y hy => h y (by simp [hy]))

/-- A tag, `style` counted, is passed over. -/
theorem passes_tag (hname : name ∈ bodyTags.map Tag.name ++ headTags)
    (hattrs : ∀ x ∈ attrs, PlainAttribute x)
    (hb : b = if close = false ∧ name = styleTag then a + 1 else a)
    (hstyle : close = false → name = styleTag → a = 0) : Passes (tagText close name attrs) a b := by
  intro n fuel rest f hfuel
  have hname := tagName_of_mem hname
  obtain ⟨attrsText, hattrsText⟩ :
    ∃ t, t = attrs.flatMap fun x => attributeText x.1 (some x.2) := ⟨_, rfl⟩
  have hbytes : encode (tagText close name attrs) ++ rest =
      byte '<' :: ((if close then [byte '/'] else []) ++
        (encode name ++ (encode attrsText ++ byte '>' :: rest))) := by
    have hopen : encode "<" = [byte '<'] := by decide
    have hclose : encode "</" = [byte '<', byte '/'] := by decide
    have hend : encode ">" = [byte '>'] := by decide
    rw [tagText, ← hattrsText]
    cases close <;>
      simp only [encode_append, hopen, hclose, hend, append_assoc, cons_append,
        nil_append, if_true, if_false, Bool.false_eq_true]
  have hskipped : Skipped attrsText := hattrsText ▸ skipped_attributes hattrs
  have hclose : nameStops (byte '>' :: rest) := by simp [nameStops]
  have hstop := nameStops_attributes attrs hclose
  rw [← hattrsText] at hstop
  rw [hbytes] at hfuel ⊢
  cases fuel with
  | zero => simp at hfuel
  | succ fuel =>
    obtain ⟨fuel', hfuel', hscan⟩ := hskipped n
      (encode name ++ (encode attrsText ++ byte '>' :: rest)).length (byte '>' :: rest) f
      (by simp)
    refine ⟨fuel, ?_, ?_⟩
    · simp only [length_cons, length_append] at hfuel
      omega
    rw [tags, if_neg (by simp), tagName?_tag close hname]
    simp only
    rw [(takeWhile_name hname hstop).1, (takeWhile_name hname hstop).2, hname.lower]
    have hcount : (if (allowedTag (encode name) && !close &&
        decide (encode name = encode styleTag)) = true then a + 1 else a) = b := by
      rw [hb]
      simp [hname.allowed, encode_injective.eq_iff]
    have hfirst : ¬(allowedTag (encode name) && !close &&
        decide (encode name = encode styleTag) && decide (b > 1)) = true := by
      simp only [hname.allowed, encode_injective.eq_iff, Bool.true_and, Bool.and_eq_true,
        Bool.not_eq_true', decide_eq_true_eq, not_and]
      rintro ⟨hopen, hstyleTag⟩
      rw [hb, if_pos ⟨hopen, hstyleTag⟩, hstyle hopen hstyleTag]
      decide
    rw [hcount, if_neg hname.notScript, if_neg (by simp [hname.allowed]), if_neg (by simp),
      if_neg hfirst, hscan]
    rw [scanAttributes_end hfuel']

/-! ## Declarations and entities -/

/-- No declaration starts in a text, and every `&` in it starts a declared entity, whatever follows.
-/
def Tidy : Text → Prop
  | [] => True
  | c :: rest =>
    (c = '<' → ∃ d ∈ rest.head?, d ≠ '!' ∧ d ≠ '?') ∧
      (c = '&' → ∃ entity ∈ entities, entity.2 <+: c :: rest) ∧ Tidy rest

theorem Tidy.append (hs : Tidy s) (ht : Tidy t) : Tidy (s ++ t) := by
  induction s with
  | nil => exact ht
  | cons c s ih =>
    obtain ⟨hlt, hamp, hs⟩ := hs
    refine ⟨fun hc => ?_, fun hc => ?_, ih hs⟩
    · obtain ⟨d, hd, hne⟩ := hlt hc
      refine ⟨d, ?_, hne⟩
      show d ∈ (s ++ t).head?
      rw [List.head?_append, Option.mem_def.mp hd]
      rfl
    · obtain ⟨entity, hentity, hpre⟩ := hamp hc
      exact ⟨entity, hentity, hpre.trans (prefix_append (c :: s) t)⟩

theorem tidy_plain (hlt : '<' ∉ text) (hamp : '&' ∉ text) : Tidy text := by
  induction text with
  | nil => trivial
  | cons c text ih =>
    simp only [mem_cons, not_or] at hlt hamp
    exact ⟨fun hc => absurd hc.symm hlt.1, fun hc => absurd hc.symm hamp.1, ih hlt.2 hamp.2⟩

theorem tidy_lt {d : Char} {rest : Text} (hd : d ≠ '!' ∧ d ≠ '?') (h : Tidy (d :: rest)) :
    Tidy ('<' :: d :: rest) :=
  ⟨fun _ => ⟨d, rfl, hd⟩, by simp, h⟩

/-- The first byte of a text is an ASCII one exactly if its first character is. -/
theorem head?_encode (hc : c.toNat < 128) :
    (encode text).head? = some (byte c) ↔ text.head? = some c := by
  cases text with
  | nil => simp
  | cons d text =>
    have hne : String.utf8EncodeChar d ≠ [] := String.utf8EncodeChar_ne_nil
    have hhead : (encode (d :: text)).head? = (String.utf8EncodeChar d).head? := by
      obtain ⟨b, bytes, hbytes⟩ := exists_cons_of_ne_nil hne
      rw [encode_cons, hbytes]
      rfl
    rw [hhead, List.head?_cons, Option.some_inj]
    constructor
    · intro h
      have hmem : byte c ∈ encode [d] := by simpa using mem_of_mem_head? (Option.mem_def.mpr h)
      exact (mem_singleton.mp (mem_of_mem_encode hc hmem)).symm
    · rintro rfl
      rcases ascii_or_high d with ⟨hone, -⟩ | ⟨hhigh, -⟩
      · rw [hone]
        rfl
      · omega

theorem find_declarations (h : rest.head? = some (byte '<') → rest.tail.head? ≠ some (byte '!') ∧
      rest.tail.head? ≠ some (byte '?')) :
    declarations.find? (fun d => (encode d.1).isPrefixOf rest) = none := by
  rw [List.find?_eq_none]
  intro d hd hpre
  simp only [declarations, mem_cons, not_mem_nil, or_false] at hd
  rw [ isPrefixOf_iff_prefix] at hpre
  obtain ⟨tail, rfl⟩ := hpre
  rcases hd with rfl | rfl | rfl
  · exact (h rfl).1 rfl
  · exact (h rfl).1 rfl
  · exact (h rfl).2 rfl

/-- Nothing is found where no declaration, no other entity and no needle start. -/
theorem anywhere_eq_none (hdecl : rest.head? = some (byte '<') → rest.tail.head? ≠ some (byte '!') ∧
      rest.tail.head? ≠ some (byte '?')) (hentity : rest.head? = some (byte '&') →
      ∃ entity ∈ entities, encode entity.2 <+: rest)
    (hneedle : NoNeedleAt rest) : anywhere offset rest .none = .none := by
  unfold anywhere
  rw [find_declarations hdecl]
  refine foldl_needles_eq_none.mpr ⟨ite_note_eq_none.mpr ⟨rfl, ?_⟩, hneedle⟩
  simp only [Bool.and_eq_true, decide_eq_true_eq, Bool.not_eq_true', not_and,
    Bool.not_eq_false, any_eq_true, isPrefixOf_iff_prefix]
  exact hentity

/-- At a character of a tidy text nothing is found. -/
theorem anywhere_tidy (htidy : Tidy (c :: text)) (hneedle : NoNeedleAt (encode (c :: text))) :
    anywhere offset (encode (c :: text)) .none = .none := by
  obtain ⟨hlt, hamp, -⟩ := htidy
  refine anywhere_eq_none (fun hhead => ?_) (fun hhead => ?_) hneedle
  · have hc : c = '<' := by simpa using (head?_encode (by decide)).mp hhead
    obtain ⟨d, hd, hbang, hquestion⟩ := hlt hc
    have htail : (encode (c :: text)).tail = encode text := by
      rw [hc]
      rfl
    rw [htail, Ne, head?_encode (by decide), Ne, head?_encode (by decide), Option.mem_def.mp hd]
    simpa using ⟨hbang, hquestion⟩
  · have hc : c = '&' := by simpa using (head?_encode (by decide)).mp hhead
    obtain ⟨entity, hentity, tail, htail⟩ := hamp hc
    exact ⟨entity, hentity, encode tail, by rw [← htail, encode_append]⟩

/-- Bytes of characters that are not ASCII give nothing. -/
theorem anywhereFrom_high (hhigh : ∀ b ∈ bytes, 128 ≤ b.toNat)
    (hneedle : ∀ tail, tail <:+ bytes ++ rest → tail ≠ [] → NoNeedleAt tail) :
    anywhereFrom offset (bytes ++ rest) .none =
      anywhereFrom (offset + bytes.length) rest .none := by
  induction bytes generalizing offset with
  | nil => rfl
  | cons b bytes ih =>
    have hb := hhigh b (by simp)
    have hne : ∀ c : Char, c.toNat < 128 → b ≠ byte c := by
      rintro c hc rfl
      rw [byte, UInt8.toNat_ofNat'] at hb
      omega
    have hhere : anywhere offset (b :: (bytes ++ rest)) .none = .none :=
      anywhere_eq_none (fun hhead => absurd (Option.some.inj hhead) (hne _ (by decide)))
        (fun hhead => absurd (Option.some.inj hhead) (hne _ (by decide)))
        (hneedle _ (suffix_refl _) (by simp))
    rw [cons_append, anywhereFrom, hhere, ih (fun b hb => hhigh b (by simp [hb]))
        fun tail htail => hneedle tail (htail.trans (suffix_cons _ _)),
      length_cons]
    congr 1
    omega

theorem anywhereFrom_tidy (htidy : Tidy text)
    (hneedle : ∀ rest, rest <:+ encode text → rest ≠ [] → NoNeedleAt rest) :
    anywhereFrom offset (encode text) .none = .none := by
  induction text generalizing offset with
  | nil => rfl
  | cons c text ih =>
    have hrest : ∀ rest, rest <:+ encode text → rest ≠ [] → NoNeedleAt rest :=
      fun rest hrest => hneedle rest (hrest.trans (by rw [encode_cons]; exact suffix_append _ _))
    rcases ascii_or_high c with ⟨hone, -⟩ | ⟨-, hhigh⟩
    · have hhere : anywhere offset (encode (c :: text)) .none = .none :=
        anywhere_tidy htidy (hneedle _ (suffix_refl _) (by simp))
      rw [encode_cons, hone, singleton_append] at hhere ⊢
      rw [anywhereFrom, hhere]
      exact ih htidy.2.2 hrest
    · rw [encode_cons, anywhereFrom_high hhigh (by simpa using hneedle)]
      exact ih htidy.2.2 hrest

/-! ## The texts of a tree -/

/-- Text that the scan has nothing to find in, wherever it stands. -/
def Inert (text : Text) : Prop := (∀ a, Passes text a a) ∧ Tidy text

theorem inert_nil : Inert [] := ⟨passes_nil, trivial⟩

theorem Inert.append (hs : Inert s) (ht : Inert t) : Inert (s ++ t) :=
  ⟨fun a => (hs.1 a).append (ht.1 a), hs.2.append ht.2⟩

theorem inert_flatMap {render : α → Text} (h : ∀ item ∈ items, Inert (render item)) :
    Inert (items.flatMap render) := by
  induction items with
  | nil => exact inert_nil
  | cons item items ih =>
    exact (h item (by simp)).append (ih fun other hother => h other (by simp [hother]))

theorem inert_plain (hlt : '<' ∉ text) (hamp : '&' ∉ text) : Inert text :=
  ⟨passes_plain hlt, tidy_plain hlt hamp⟩

theorem tidy_entity {entity : Char × Text} (h : entity ∈ entities) : Tidy entity.2 := by
  have hshape : ∀ entity ∈ entities,
      entity.2.head? = some '&' ∧ '<' ∉ entity.2.tail ∧ '&' ∉ entity.2.tail := by decide
  obtain ⟨hhead, hlt, hamp⟩ := hshape entity h
  obtain ⟨tail, htail⟩ : ∃ tail, entity.2 = '&' :: tail := List.head?_eq_some_iff.mp hhead
  rw [htail] at hlt hamp ⊢
  exact ⟨by simp, fun _ => ⟨entity, h, htail ▸ prefix_refl _⟩, tidy_plain hlt hamp⟩

theorem inert_escape (text : Text) : Inert (escape text) := by
  refine inert_flatMap fun c _ => ?_
  rcases escapeChar_cases c with ⟨entity, hentity, hc⟩ | ⟨⟨hamp, hlt, -⟩, hc⟩
  · have hplain : ∀ entity ∈ entities, '<' ∉ entity.2 := by decide
    rw [hc]
    exact ⟨passes_plain (hplain _ hentity), tidy_entity hentity⟩
  · rw [hc]
    exact inert_plain (by simpa using hlt.symm) (by simpa using hamp.symm)

/-- No tag or entity starts in attributes. -/
theorem not_mem_attributes (hc : c = '<' ∨ c = '&') (hattrs : ∀ x ∈ attrs, PlainAttribute x) :
    c ∉ attrs.flatMap fun x => attributeText x.1 (some x.2) := by
  have hnames : ∀ name ∈ bodyAttributes ++ prologueAttributes, '<' ∉ name ∧ '&' ∉ name := by decide
  intro hmem
  obtain ⟨x, hx, hmem⟩ := mem_flatMap.mp hmem
  obtain ⟨hname, -, hlt, hamp⟩ := hattrs x hx
  obtain ⟨hnameLt, hnameAmp⟩ := hnames _ hname
  rcases hc with rfl | rfl
  · simp [attributeText, hlt, hnameLt] at hmem
  · simp [attributeText, hamp, hnameAmp] at hmem

theorem tidy_tagText (hname : name ∈ bodyTags.map Tag.name ++ headTags)
    (hattrs : ∀ x ∈ attrs, PlainAttribute x) : Tidy (tagText close name attrs) := by
  have hnames : ∀ name ∈ bodyTags.map Tag.name ++ headTags,
      name ≠ [] ∧ '!' ∉ name ∧ '?' ∉ name ∧ '<' ∉ name ∧ '&' ∉ name := by decide
  obtain ⟨hne, hbang, hquestion, hlt, hamp⟩ := hnames name hname
  obtain ⟨d, name, rfl⟩ := exists_cons_of_ne_nil hne
  have hplain : ∀ c, c = '<' ∨ c = '&' → c ∉ d :: name ++
      (attrs.flatMap (fun x => attributeText x.1 (some x.2)) ++ ">") := by
    intro c hc
    have hattrs := not_mem_attributes hc hattrs
    rcases hc with rfl | rfl
    · simpa [hattrs] using hlt
    · simpa [hattrs] using hamp
  have htidy := tidy_plain (hplain _ (.inl rfl)) (hplain _ (.inr rfl))
  cases close with
  | false =>
    have hd : d ≠ '!' ∧ d ≠ '?' := by
      simp only [mem_cons, not_or] at hbang hquestion
      exact ⟨.symm hbang.1, .symm hquestion.1⟩
    exact tidy_lt hd htidy
  | true =>
    have hslash : Tidy ("/" ++ (d :: name ++
        (attrs.flatMap (fun x => attributeText x.1 (some x.2)) ++ ">"))) :=
      (tidy_plain (by decide) (by decide)).append htidy
    exact tidy_lt (by decide) hslash

/-- A tag of the body. -/
theorem inert_tagText (hattrs : ∀ x ∈ attrs, PlainAttribute x) :
    Inert (tagText close tag.name attrs) := by
  have hmem : tag.name ∈ bodyTags.map Tag.name ++ headTags := by cases tag <;> decide
  have hstyle : tag.name ≠ styleTag := by cases tag <;> decide
  exact ⟨fun a => passes_tag close hmem hattrs (by simp [hstyle]) fun _ h => absurd h hstyle,
    tidy_tagText close hmem hattrs⟩

theorem plainAttribute_class (c : Class) : PlainAttribute (className, c.name) := by
  cases c <;> exact ⟨by decide, by decide, by decide, by decide⟩

/-- A value of letters, digits and hyphens. -/
theorem plainAttribute_value (hname : name ∈ bodyAttributes ++ prologueAttributes)
    (h : ∀ c ∈ text, c.isLower ∨ c.isUpper ∨ c.isDigit ∨ c = '-') :
    PlainAttribute (name, text) := by
  refine ⟨hname, fun hc => ?_, fun hc => ?_, fun hc => ?_⟩ <;>
    exact absurd (h _ hc) (by decide)

theorem plainAttribute_id {id : Text} (h : IdForm id) : PlainAttribute (idName, id) := by
  obtain ⟨first, rest, rfl, hfirst, -, hrest⟩ := h
  refine plainAttribute_value (by simp [bodyAttributes]) fun c hc => ?_
  rcases mem_cons.mp hc with rfl | hc
  · exact .inl hfirst
  · exact (hrest c hc).imp_right .inr

theorem inert_startText {attrs : Attrs} (hid : ∀ id ∈ attrs.id, IdForm id) :
    Inert (startText tag attrs) := by
  have htext : startText tag attrs = tagText false tag.name
      ((attrs.cls.map fun c => (className, c.name)).toList ++
        (attrs.id.map fun id => (idName, id)).toList) := by
    obtain ⟨cls, id⟩ := attrs
    cases cls <;> cases id <;>
      simp [startText, tagText, Attrs.render, attributeText]
  rw [htext]
  refine inert_tagText false tag fun x hx => ?_
  rcases mem_append.mp hx with hx | hx
  · obtain ⟨c, -, rfl⟩ := Option.map_eq_some_iff.mp (Option.mem_toList.mp hx)
    exact plainAttribute_class c
  · obtain ⟨id, hsome, rfl⟩ := Option.map_eq_some_iff.mp (Option.mem_toList.mp hx)
    exact plainAttribute_id (hid id hsome)

theorem inert_endText : Inert (endText tag) := by
  have htext : endText tag = tagText true tag.name [] := by simp [endText, tagText]
  rw [htext]
  exact inert_tagText true tag (by simp)

theorem inert_lineFeed : Inert "\n" := inert_plain (by decide) (by decide)

theorem inert_containerText {attrs : Attrs} {children : Text} (hid : ∀ id ∈ attrs.id, IdForm id)
    (hchildren : Inert children) : Inert (containerText tag attrs children) :=
  ((((inert_startText tag hid).append inert_lineFeed).append hchildren).append
    (inert_endText tag)).append inert_lineFeed

/-- The ids of an element: its own and those of its content. -/
theorem idForm_of_element {attrs : Attrs} {e : Extent} (h : (Extent.element attrs e).IdForms) :
    (∀ id ∈ attrs.id, IdForm id) ∧ e.IdForms :=
  ⟨fun id hid => h id (mem_append_left _ (by simpa using hid)),
    fun id hid => h id (mem_append_right _ hid)⟩

/-- The ids of two parts. -/
theorem idForm_of_append {e e' : Extent} (h : (e.append e').IdForms) : e.IdForms ∧ e'.IdForms :=
  ⟨fun id hid => h id (mem_append_left _ hid), fun id hid => h id (mem_append_right _ hid)⟩

theorem inert_inlines {content : Inlines} (h : content.extent.IdForms) : Inert content.render := by
  induction content with
  | nil => exact inert_nil
  | text t rest ih => exact (inert_escape t).append (ih h)
  | br rest ih => exact (inert_startText .br (by simp [Attrs.none])).append (ih h)
  | span tag attrs inlines rest ihInlines ihRest =>
    obtain ⟨hspan, hrest⟩ := idForm_of_append h
    obtain ⟨hattrs, hinside⟩ := idForm_of_element hspan
    exact (((inert_startText tag.tag hattrs).append (ihInlines hinside)).append
      (inert_endText tag.tag)).append (ihRest hrest)

/-- The ids of parts one after another. -/
theorem idForm_of_concat {extent : α → Extent} {item : α}
    (h : (Extent.concat (items.map extent)).IdForms) (hitem : item ∈ items) :
    (extent item).IdForms := by
  induction items with
  | nil => cases hitem
  | cons first items ih =>
    obtain ⟨hfirst, hrest⟩ := idForm_of_append h
    rcases mem_cons.mp hitem with rfl | hitem
    · exact hfirst
    · exact ih hrest hitem

theorem inert_leaf {l : Leaf} (h : l.extent.IdForms) : Inert (l.render tag) := by
  obtain ⟨hattrs, hinlines⟩ := idForm_of_element h
  exact (((inert_startText tag hattrs).append (inert_inlines hinlines)).append
    (inert_endText tag)).append inert_lineFeed

theorem inert_block {b : Block} (h : b.extent.IdForms) : Inert b.render := by
  cases b with
  | leaf tag l => exact inert_leaf tag.tag h
  | list tag l =>
    obtain ⟨hattrs, hitems⟩ := idForm_of_element h
    exact inert_containerText tag.tag hattrs
      (inert_flatMap fun item hitem => inert_leaf .li (idForm_of_concat hitems hitem))

theorem inert_blocksText {attrs : Attrs} {blocks : List Block}
    (h : (blocksExtent attrs blocks).IdForms) : Inert (blocksText tag attrs blocks) := by
  obtain ⟨hattrs, hblocks⟩ := idForm_of_element h
  exact inert_containerText tag hattrs
    (inert_flatMap fun b hb => inert_block (idForm_of_concat hblocks hb))

theorem inert_regionText {r : Option Region} (h : (regionExtent r).IdForms) :
    Inert (regionText tag r) := by
  cases r with
  | none => exact inert_nil
  | some r => exact inert_blocksText tag h

theorem inert_renderBody (h : page.extent.IdForms) : Inert page.renderBody := by
  obtain ⟨hheader, hrest⟩ := idForm_of_append h
  obtain ⟨hmain, hfooter⟩ := idForm_of_append hrest
  obtain ⟨hattrs, hitems⟩ := idForm_of_element hmain
  refine ((inert_regionText .header hheader).append
    (inert_containerText .main hattrs (inert_flatMap fun item hitem => ?_))).append
    (inert_regionText .footer hfooter)
  have hitem := idForm_of_concat hitems hitem
  cases item with
  | sect s => exact inert_blocksText .section hitem
  | block b => exact inert_block hitem

/-! ## The document -/

/-- A part of the document in which the scan finds nothing, `style` tags counted. -/
def Quiet (text : Text) (a b : Nat) : Prop := Passes text a b ∧ Tidy text

theorem Inert.quiet (h : Inert text) (a : Nat) : Quiet text a a := ⟨h.1 a, h.2⟩

theorem Quiet.append {c : Nat} (hs : Quiet s a b) (ht : Quiet t b c) : Quiet (s ++ t) a c :=
  ⟨hs.1.append ht.1, hs.2.append ht.2⟩

/-- A line ends. -/
theorem Quiet.line (h : Quiet s a b) : Quiet (s ++ "\n") a b := h.append (inert_lineFeed.quiet b)

/-- A tag of the head. -/
theorem quiet_tag (hname : name ∈ headTags) (hattrs : ∀ x ∈ attrs, PlainAttribute x)
    (hb : b = if close = false ∧ name = styleTag then a + 1 else a)
    (hstyle : close = false → name = styleTag → a = 0) : Quiet (tagText close name attrs) a b := by
  have hmem : name ∈ bodyTags.map Tag.name ++ headTags := mem_append_right _ hname
  exact ⟨passes_tag close hmem hattrs hb hstyle, tidy_tagText close hmem hattrs⟩

/-- From the end of the title to the stylesheet. -/
theorem quiet_afterTitle : Quiet afterTitle 0 1 := by
  have htext : afterTitle = tagText true "title" [] ++ "\n" ++
      tagText false styleTag [] ++ "\n" := by decide
  rw [htext]
  exact ((quiet_tag true (by decide) (by simp) rfl (by decide)).line.append
    (quiet_tag false (by decide) (by simp) rfl (by decide))).line

theorem quiet_css (a : Nat) : Quiet css a a := (inert_plain lt_not_mem_css amp_not_mem_css).quiet a

/-- From the end of the stylesheet to the body. -/
theorem quiet_afterCss : Quiet afterCss 1 1 := by
  have htext : afterCss = tagText true styleTag [] ++ "\n" ++
      tagText true "head" [] ++ "\n" ++ tagText false "body" [] ++
      "\n" := by decide
  rw [htext]
  exact (((quiet_tag true (by decide) (by simp) rfl (by decide)).line.append
    (quiet_tag true (by decide) (by simp) rfl (by decide))).line.append
    (quiet_tag false (by decide) (by simp) rfl (by decide))).line

theorem quiet_epilogue : Quiet epilogue 1 1 := by
  have htext : epilogue = tagText true "body" [] ++ "\n" ++
      tagText true "html" [] ++ "\n" := by decide
  rw [htext]
  exact ((quiet_tag true (by decide) (by simp) rfl (by decide)).line.append
    (quiet_tag true (by decide) (by simp) rfl (by decide))).line

theorem plainAttribute_lang (h : LangForm lang) : PlainAttribute ("lang", lang) := by
  refine plainAttribute_value (by simp [prologueAttributes]) fun c hc => ?_
  rcases h with ⟨a, b, rfl, ha, hb⟩ | ⟨a, b, d, e, rfl, ha, hb, hd, he⟩ <;>
    simp only [mem_cons, not_mem_nil, or_false] at hc
  · rcases hc with rfl | rfl <;> simp [ha, hb]
  · rcases hc with rfl | rfl | rfl | rfl | rfl <;> simp [ha, hb, hd, he]

/-- From the first tag to the title. -/
theorem quiet_head (h : LangForm lang) : Quiet ("<html lang=\"" ++ lang ++ afterLang) 0 0 := by
  have htext : "<html lang=\"" ++ lang ++ afterLang =
      tagText false "html" [("lang", lang)] ++ "\n" ++
        tagText false "head" [] ++ "\n" ++
        tagText false "meta" [("charset", "utf-8")] ++ "\n" ++
        tagText false "meta" [("name", "viewport"),
          ("content", "width=device-width, initial-scale=1")] ++ "\n" ++
        tagText false "title" [] := by
    have hhtml : tagText false "html" [("lang", lang)] = "<html lang=\"" ++ lang ++ "\">" := by
      simp [tagText, attributeText]
    have hafter : afterLang = "\">" ++ ("\n" ++
        (tagText false "head" [] ++ ("\n" ++
        (tagText false "meta" [("charset", "utf-8")] ++ ("\n" ++
        (tagText false "meta" [("name", "viewport"),
          ("content", "width=device-width, initial-scale=1")] ++ ("\n" ++
        tagText false "title" []))))))) := by decide
    rw [hhtml, hafter]
    simp only [append_assoc]
  have htag : ∀ {name : Text} {attrs : List (Text × Text)}, name ∈ headTags →
      name ≠ styleTag → (∀ x ∈ attrs, PlainAttribute x) →
      Quiet (tagText false name attrs) 0 0 := fun hname hstyle hattrs =>
    quiet_tag false hname hattrs (by simp [hstyle]) fun _ heq => absurd heq hstyle
  have hcharset : PlainAttribute ("charset", "utf-8") :=
    ⟨by decide, by decide, by decide, by decide⟩
  have hname : PlainAttribute ("name", "viewport") := ⟨by decide, by decide, by decide, by decide⟩
  have hcontent : PlainAttribute ("content", "width=device-width, initial-scale=1") :=
    ⟨by decide, by decide, by decide, by decide⟩
  rw [htext]
  exact ((((htag (by decide) (by decide) (by simpa using plainAttribute_lang h)).line.append
    (htag (by decide) (by decide) (by simp))).line.append
    (htag (by decide) (by decide) (by simpa using hcharset))).line.append
    (htag (by decide) (by decide) (by simpa using ⟨hname, hcontent⟩))).line.append
    (htag (by decide) (by decide) (by simp))

/-- The doctype is no tag. -/
theorem passes_doctype (a : Nat) : Passes "<!doctype html>\n" a a := by
  intro n fuel rest f hfuel
  have hbytes : encode "<!doctype html>\n" ++ rest =
      byte '<' :: (encode "!doctype html>\n" ++ rest) := rfl
  rw [hbytes] at hfuel ⊢
  cases fuel with
  | zero => simp at hfuel
  | succ fuel =>
    have hplain : byte '<' ∉ encode "!doctype html>\n" := by decide
    obtain ⟨fuel', hfuel', htags⟩ := tags_plain hplain (Nat.le_of_succ_le_succ hfuel)
    refine ⟨fuel', hfuel', ?_⟩
    exact htags

/-- The doctype is the one declaration, at the start. -/
theorem anywhere_doctype (hneedle : NoNeedleAt (encode "<!doctype html>\n" ++ rest)) :
    anywhere 0 (encode "<!doctype html>\n" ++ rest) .none = .none := by
  refine foldl_needles_eq_none.mpr ⟨ite_note_eq_none.mpr ⟨rfl, ?_⟩, hneedle⟩
  exact Bool.false_ne_true

/-- The text of a page after the doctype. -/
theorem render_eq (page : Page) : page.render = "<!doctype html>\n" ++
    ("<html lang=\"" ++ page.lang ++ afterLang ++ escape page.title ++
      afterTitle ++ css ++ afterCss ++ page.renderBody ++
      epilogue) := by
  have hhead : head = "<!doctype html>\n" ++ "<html lang=\"" := by decide
  rw [Page.render, hhead]
  simp only [append_assoc]

/-- The scan of a page's text finds only what its size, its characters and its needles give. -/
theorem scan_render (h : page.WellFormed) (hsize : (encode page.render).length ≤ maxPageBytes)
    (hchars : ∀ c ∈ page.render, AllowedChar c)
    (hneedles : ∀ needle ∈ needles, ¬OccursIn (encode needle.1) (encode page.render)) :
    scan (encode page.render) = .none := by
  have hneedles := noNeedleAt_iff.mpr hneedles
  have hlast : (encode page.render).getLast? = some (byte '\n') := by
    have hepilogue : (encode epilogue).getLast? = some (byte '\n') := by decide
    rw [Page.render, encode_append, List.getLast?_append, hepilogue]
    rfl
  unfold scan
  rw [if_neg (by omega), pieces_encode, characters_allowed hchars]
  simp only [hlast, ne_eq, not_true_eq_false, if_false]
  obtain ⟨rest, hrest⟩ : ∃ rest, rest = "<html lang=\"" ++ page.lang ++
      afterLang ++ escape page.title ++ afterTitle ++ css ++
      afterCss ++ page.renderBody ++ epilogue := ⟨_, rfl⟩
  have hrender : page.render = "<!doctype html>\n" ++ rest := by rw [hrest, render_eq]
  have hquiet : Quiet rest 0 1 := by
    rw [hrest]
    exact ((((((quiet_head h.lang).append ((inert_escape _).quiet 0)).append
      quiet_afterTitle).append (quiet_css 1)).append quiet_afterCss).append
      ((inert_renderBody h.ids).quiet 1)).append quiet_epilogue
  have htags : tags (encode page.render).length (encode page.render).length 0
      (encode page.render) .none = .none := by
    obtain ⟨fuel, -, hpasses⟩ := ((passes_doctype 0).append hquiet.1)
      (encode page.render).length (encode page.render).length [] .none
      (by rw [append_nil, hrender])
    rw [← hrender, append_nil] at hpasses
    rw [hpasses]
    cases fuel <;> rfl
  have htidy : Tidy ("!doctype html>\n" ++ rest) :=
    (tidy_plain (by decide) (by decide)).append hquiet.2
  have hbytes : encode page.render =
      byte '<' :: encode ("!doctype html>\n" ++ rest) := by rw [hrender]; rfl
  have hfirst : anywhere 0 (encode page.render) .none = .none := by
    have hnone := hneedles _ (suffix_refl _) (by rw [hbytes]; simp)
    exact anywhere_doctype hnone
  rw [htags]
  rw [hbytes] at hfirst hneedles ⊢
  exact anywhereFrom_tidy htidy fun tail htail => hneedles tail (htail.trans (suffix_cons _ _))

end NexusOs.InertPage
