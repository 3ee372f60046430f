import NexusOs.InertPage.Tree

/-!
# The canonical text of a page

The text of a tree by recursion (`Page.render`), and that the writer, which keeps a stack of open
spans and stops past its limit, writes exactly this text (`writePage_cases`).
-/

namespace NexusOs.InertPage

open Framing Utf8 List Writer

/-! ## The text of a tree -/

/-- A character as text: its entity, or itself. -/
def escapeChar (c : Char) : Text := (entityOf c).getD [c]

/-- Text with each special character as its entity. -/
def escape (text : Text) : Text := text.flatMap escapeChar

/-- An attribute, if there is one. -/
def attributeText (name : Text) : Option Text → Text
  | some value => " " ++ name ++ "=\"" ++ value ++ "\""
  | none => []

/-- The attributes of a start tag. -/
def Attrs.render (attrs : Attrs) : Text :=
  attributeText POLICY_V1.className (attrs.cls.map Class.name) ++
    attributeText POLICY_V1.idName attrs.id

/-- A start tag. -/
def startText (tag : Tag) (attrs : Attrs) : Text := "<" ++ tag.name ++ attrs.render ++ ">"

/-- An end tag. -/
def endText (tag : Tag) : Text := "</" ++ tag.name ++ ">"

/-- A container around the text of its children. -/
def containerText (tag : Tag) (attrs : Attrs) (children : Text) : Text :=
  startText tag attrs ++ "\n" ++ children ++ endText tag ++ "\n"

/-- Inline content. -/
def Inlines.render : Inlines → Text
  | .nil => []
  | .text t rest => escape t ++ rest.render
  | .br rest => startText .br Attrs.none ++ rest.render
  | .span tag attrs inlines rest =>
    startText tag.tag attrs ++ inlines.render ++ endText tag.tag ++ rest.render

/-- A leaf. -/
def Leaf.render (tag : Tag) (l : Leaf) : Text :=
  startText tag l.attrs ++ l.inlines.render ++ endText tag ++ "\n"

/-- A block. -/
def Block.render : Block → Text
  | .leaf tag l => l.render tag.tag
  | .list tag l => containerText tag.tag l.attrs (l.items.flatMap (Leaf.render .li))

/-- A region or section: a container of blocks. -/
def blocksText (tag : Tag) (attrs : Attrs) (blocks : List Block) : Text :=
  containerText tag attrs (blocks.flatMap Block.render)

/-- An optional region. -/
def regionText (tag : Tag) : Option Region → Text
  | some r => blocksText tag r.attrs r.blocks
  | none => []

/-- An item of `main`. -/
def MainItem.render : MainItem → Text
  | .sect s => blocksText Tag.section s.attrs s.blocks
  | .block b => b.render

/-- The content of `body`. -/
def Page.renderBody (page : Page) : Text :=
  regionText .header page.header ++
    containerText .main page.main.attrs (page.main.items.flatMap MainItem.render) ++
    regionText .footer page.footer

/-- The canonical text of a page. -/
def Page.render (page : Page) : Text :=
  POLICY_V1.head ++ page.lang ++ POLICY_V1.afterLang ++ escape page.title ++
    POLICY_V1.afterTitle ++ POLICY_V1.css ++ POLICY_V1.afterCss ++ page.renderBody ++
    POLICY_V1.epilogue

/-- A character is written as its entity, or as itself if it is not special. -/
theorem escapeChar_cases (c : Char) :
    (∃ entity, (c, entity) ∈ POLICY_V1.entities ∧ escapeChar c = entity) ∨
      (c ≠ '&' ∧ c ≠ '<' ∧ c ≠ '>') ∧ escapeChar c = [c] := by
  rcases hfind : POLICY_V1.entities.find? fun entity => entity.1 = c with _ | ⟨d, entity⟩
  · right
    have hnone : ∀ entity ∈ POLICY_V1.entities, entity.1 ≠ c := by
      simpa using List.find?_eq_none.mp hfind
    refine ⟨⟨?_, ?_, ?_⟩, by simp [escapeChar, entityOf, hfind]⟩
    · exact (hnone ('&', "&amp;") (by decide)).symm
    · exact (hnone ('<', "&lt;") (by decide)).symm
    · exact (hnone ('>', "&gt;") (by decide)).symm
  · left
    have hd : d = c := by simpa using List.find?_some hfind
    subst hd
    exact ⟨entity, mem_of_find?_eq_some hfind, by simp [escapeChar, entityOf, hfind]⟩

/-! ## What the writer writes -/

/-- Several pieces written one after another. -/
def Writer.writes (pieces : List Text) (w : Writer) : Writer :=
  pieces.foldl (fun w piece => w.raw piece) w

/-- A part of the writer writes this text, in pieces. -/
def Writes (write : Writer → Writer) (text : Text) : Prop :=
  ∃ pieces : List Text, pieces.flatten = text ∧ ∀ w, write w = w.writes pieces

theorem writes_raw (text : Text) : Writes (raw text) text := ⟨[text], by simp, fun _ => rfl⟩

theorem writes_nothing : Writes id [] := ⟨[], rfl, fun _ => rfl⟩

/-- One part after another. -/
theorem Writes.andThen {f g : Writer → Writer} {a b : Text} (hf : Writes f a) (hg : Writes g b) :
    Writes (fun w => g (f w)) (a ++ b) := by
  obtain ⟨as, rfl, hf⟩ := hf
  obtain ⟨bs, rfl, hg⟩ := hg
  refine ⟨as ++ bs, by simp, fun w => ?_⟩
  show g (f w) = w.writes (as ++ bs)
  rw [hf, hg, writes, writes, writes, foldl_append]

/-- A part for every item of a list. -/
theorem Writes.foldl {α : Type} {write : Writer → α → Writer} {render : α → Text}
    (h : ∀ a, Writes (fun w => write w a) (render a)) (items : List α) :
    Writes (fun w => items.foldl write w) (items.flatMap render) := by
  induction items with
  | nil => exact writes_nothing
  | cons a items ih => exact (h a).andThen ih

theorem writes_text (text : Text) : Writes (Writer.text text) (escape text) := by
  refine ⟨text.map escapeChar, (flatMap_def ..).symm, fun w => ?_⟩
  induction text generalizing w with
  | nil => rfl
  | cons c text ih =>
    have hraw : Writer.text (c :: text) w = Writer.text text (w.raw (escapeChar c)) := by
      by_cases hfull : w.out.length > w.limit
      · have hsame : ∀ s, w.raw s = w := fun s => if_neg (by omega)
        rw [hsame]
        cases text <;> simp [text, hfull]
      · simp only [Writer.text, hfull, escapeChar]
        cases entityOf c <;> rfl
    rw [hraw, ih]
    rfl

theorem writes_attribute (name : Text) (value : Option Text) :
    Writes (writeAttribute name value) (attributeText name value) := by
  cases value with
  | none => exact writes_nothing
  | some value =>
    have h := (((writes_raw " ").andThen (writes_raw name)).andThen
      (writes_raw "=\"")).andThen (writes_raw value) |>.andThen (writes_raw "\"")
    exact h

variable (tag : Tag) (content : Inlines)

theorem writes_openTag (attrs : Attrs) :
    Writes (openTag tag attrs) (startText tag attrs) := by
  have h := (((writes_raw "<").andThen (writes_raw tag.name)).andThen
    ((writes_attribute POLICY_V1.className (attrs.cls.map Class.name)).andThen
      (writes_attribute POLICY_V1.idName attrs.id))).andThen (writes_raw ">")
  exact h

theorem writes_closeTag : Writes (closeTag tag) (endText tag) := by
  have h := ((writes_raw "</").andThen (writes_raw tag.name)).andThen (writes_raw ">")
  exact h

theorem writes_container {tag : Tag} {attrs : Attrs} {children : Writer → Writer} {text : Text}
    (h : Writes children text) :
    Writes (container tag attrs children) (containerText tag attrs text) :=
  ((((writes_openTag tag attrs).andThen (writes_raw _)).andThen h).andThen
    (writes_closeTag tag)).andThen (writes_raw _)

/-- The text of a stack of open spans. -/
def stackText : List (Inlines × Option SpanTag) → Text
  | [] => []
  | (content, some tag) :: stack => content.render ++ endText tag.tag ++ stackText stack
  | (content, none) :: stack => content.render ++ stackText stack

theorem stackText_cons (top : Option SpanTag) (stack : List (Inlines × Option SpanTag)) :
    stackText ((content, top) :: stack) = content.render ++ stackText ((.nil, top) :: stack) := by
  cases top <;> simp [stackText, Inlines.render]

/-- The loop writes what is left of every open span, and its end. -/
theorem writes_inlinesLoop (stack : List (Inlines × Option SpanTag)) :
    Writes (inlinesLoop stack) (stackText stack) := by
  have hlift : ∀ {f g : Writer → Writer} {text}, (∀ w, f w = g w) → Writes g text →
      Writes f text := fun heq h => by rwa [funext heq]
  generalize hweight : (stack.map fun frame => frame.1.weight).sum = weight
  induction weight using Nat.strong_induction_on generalizing stack with
  | _ weight ih =>
    subst hweight
    match stack with
    | [] => exact hlift (fun w => by rw [inlinesLoop]; rfl) writes_nothing
    | (.nil, none) :: stack =>
      exact hlift (fun w => by rw [inlinesLoop]) (ih _ (by simp [Inlines.weight]) stack rfl)
    | (.nil, some tag) :: stack =>
      have hrest := ih _ (by simp [Inlines.weight]) stack rfl
      exact hlift (fun w => by rw [inlinesLoop]) ((writes_closeTag tag.tag).andThen hrest)
    | (.text t rest, top) :: stack =>
      have hrest := ih _ (by simp [Inlines.weight]) ((rest, top) :: stack) rfl
      have h := (writes_text t).andThen hrest
      rw [stackText_cons, ← append_assoc] at h
      rw [stackText_cons]
      exact hlift (fun w => by rw [Writer.inlinesLoop]) h
    | (.br rest, top) :: stack =>
      have hrest := ih _ (by simp [Inlines.weight]) ((rest, top) :: stack) rfl
      have h := (writes_openTag .br .none).andThen hrest
      rw [stackText_cons] at h
      rw [stackText_cons]
      exact hlift (fun w => by rw [inlinesLoop]) h
    | (.span tag attrs inlines rest, top) :: stack =>
      have hrest := ih _ (by simp [Inlines.weight]; omega)
        ((inlines, some tag) :: (rest, top) :: stack) rfl
      have h := (writes_openTag tag.tag attrs).andThen hrest
      rw [stackText_cons]
      refine hlift (fun w => by rw [inlinesLoop]) ?_
      simpa [stackText_cons rest top stack, stackText, Inlines.render] using h

theorem writes_inlines : Writes (inlines content) content.render := by
  have h := writes_inlinesLoop [(content, none)]
  rw [stackText, stackText, append_nil] at h
  exact h

theorem writes_leaf (l : Leaf) : Writes (leaf tag l) (l.render tag) :=
  (((writes_openTag tag l.attrs).andThen (writes_inlines l.inlines)).andThen
    (writes_closeTag tag)).andThen (writes_raw _)

theorem writes_block (b : Block) : Writes (block b) b.render := by
  cases b with
  | leaf tag l => exact writes_leaf tag.tag l
  | list tag l =>
    have hitems : Writes (fun w => l.items.foldl (fun w item => w.leaf .li item) w)
        (l.items.flatMap (Leaf.render .li)) :=
      .foldl (fun item => writes_leaf .li item) l.items
    have hlist : block (.list tag l) = container tag.tag l.attrs
        fun w => l.items.foldl (fun w item => w.leaf .li item) w := by
      funext w
      rw [block, list]
    rw [hlist]
    exact writes_container hitems

theorem writes_blocks (attrs : Attrs) (blocks : List Block) :
    Writes (container tag attrs fun w => w.blocks blocks) (blocksText tag attrs blocks) := by
  have hblocks : Writes (fun w => blocks.foldl (fun w b => w.block b) w)
      (blocks.flatMap Block.render) := .foldl (fun b => writes_block b) blocks
  exact writes_container hblocks

theorem writes_region (region : Option Region) :
    Writes (Writer.region tag region) (regionText tag region) := by
  cases region with
  | none => exact writes_nothing
  | some r => exact writes_blocks tag r.attrs r.blocks

theorem writes_mainItem (item : MainItem) : Writes (mainItem item) item.render := by
  cases item with
  | sect s => exact writes_blocks .section s.attrs s.blocks
  | block b => exact writes_block b

/-! ## The limit -/

/-- A writer has written everything, or it and everything are past the limit. -/
theorem writes_out (pieces : List Text) (w : Writer) :
    (w.writes pieces).out = w.out ++ encode pieces.flatten ∨
      w.limit < (w.writes pieces).out.length ∧
        w.limit < (w.out ++ encode pieces.flatten).length := by
  induction pieces generalizing w with
  | nil => exact .inl (by simp [writes])
  | cons piece pieces ih =>
    have hstep : w.writes (piece :: pieces) = (w.raw piece).writes pieces := rfl
    rw [hstep]
    by_cases hfull : w.out.length ≤ w.limit
    · have hraw : w.raw piece = { w with out := w.out ++ encode piece } := if_pos hfull
      have hout := ih (w.raw piece)
      rw [hraw] at hout ⊢
      simpa using hout
    · have hraw : w.raw piece = w := if_neg hfull
      rw [hraw]
      have hlong : w.limit < (w.out ++ encode (piece :: pieces).flatten).length := by
        rw [length_append]
        omega
      refine .inr ⟨?_, hlong⟩
      rcases ih w with hout | hout
      · rw [hout, length_append]
        omega
      · exact hout.1

/-- The writer of a page writes its canonical text, or both are past the limit. -/
theorem writePage_cases (page : Page) (limit : Nat) :
    writePage page limit = encode page.render ∨
      limit < (writePage page limit).length ∧ limit < (encode page.render).length := by
  have hmain : Writes (.container .main page.main.attrs
      fun w => page.main.items.foldl (fun w item => w.mainItem item) w)
      (containerText .main page.main.attrs (page.main.items.flatMap MainItem.render)) :=
    writes_container (.foldl (fun item => writes_mainItem item) page.main.items)
  have hpage := ((writes_raw POLICY_V1.head).andThen (writes_raw page.lang)).andThen
    (writes_raw POLICY_V1.afterLang) |>.andThen (writes_text page.title)
    |>.andThen (writes_raw POLICY_V1.afterTitle) |>.andThen (writes_raw POLICY_V1.css)
    |>.andThen (writes_raw POLICY_V1.afterCss)
    |>.andThen (((writes_region .header page.header).andThen hmain).andThen
      (writes_region .footer page.footer))
    |>.andThen (writes_raw POLICY_V1.epilogue)
  obtain ⟨pieces, hflatten, hwrite⟩ := hpage
  have hrender : pieces.flatten = page.render := hflatten
  have hout : writePage page limit = (writes pieces ⟨[], limit⟩).out :=
    congrArg out (hwrite ⟨[], limit⟩)
  rw [hout, ← hrender]
  simpa using writes_out pieces ⟨[], limit⟩

end NexusOs.InertPage
