import NexusOs.InertPage.Tree

/-!
# The declared grammar of a page

What `POLICY_V1` declares of a page's tree (`content_model`, `id_rule`, `caps_rule`, `spacing`),
over the tree alone: `Page.WellFormed`.
-/

namespace NexusOs.InertPage

open Utf8

/-- `spacing`, as far as the text goes: everything but its end. -/
structure Begun (text : Text) : Prop where
  noLineFeed : '\n' ∉ text
  noLeading : text.head? ≠ some ' '
  noDouble : ¬[' ', ' '] <:+: text
  words : ∀ word, word <:+: text → ' ' ∉ word → word.length ≤ POLICY_V1.maxWordChars

/-- `spacing` and the word cap: no line feed, no leading, trailing or double space, no word too
long. -/
structure WellSpaced (text : Text) : Prop extends Begun text where
  noTrailing : text.getLast? ≠ some ' '

/-- `lang_rule`: `[a-z]{2}(-[A-Z]{2})?`. -/
def LangForm (lang : Text) : Prop :=
  (∃ a b, lang = [a, b] ∧ a.isLower ∧ b.isLower) ∨
    ∃ a b c d, lang = [a, b, '-', c, d] ∧ a.isLower ∧ b.isLower ∧ c.isUpper ∧ d.isUpper

/-- `id_rule`: `[a-z][a-z0-9-]*`, at most `max_id_chars` characters. -/
def IdForm (id : Text) : Prop :=
  ∃ first rest, id = first :: rest ∧ first.isLower ∧ id.length ≤ POLICY_V1.maxIdChars ∧
    ∀ c ∈ rest, c.isLower ∨ c.isDigit ∨ c = '-'

theorem idForm_of_all {first : Char} {rest : Text}
    (h : (first.isLower && decide ((first :: rest).length ≤ POLICY_V1.maxIdChars) &&
      rest.all fun c => c.isLower || c.isDigit || c = '-') = true) : IdForm (first :: rest) := by
  simp only [Bool.and_eq_true, decide_eq_true_eq, List.all_eq_true] at h
  obtain ⟨⟨hfirst, hlength⟩, hrest⟩ := h
  exact ⟨first, rest, rfl, hfirst, hlength, fun c hc => by simpa [or_assoc] using hrest c hc⟩

/-- What a part of the body takes of the caps: its elements, their depth and their ids in document
order. -/
@[ext]
structure Extent where
  elements : Nat
  depth : Nat
  ids : List Text

/-- Every id of a part has its form. -/
abbrev Extent.IdForms (e : Extent) : Prop := ∀ id ∈ e.ids, IdForm id

namespace Extent

/-- Nothing. -/
def none : Extent where
  elements := 0
  depth := 0
  ids := []

/-- One part after another. -/
def append (a b : Extent) : Extent where
  elements := a.elements + b.elements
  depth := max a.depth b.depth
  ids := a.ids ++ b.ids

/-- An element around its content. -/
def element (attrs : Attrs) (content : Extent) : Extent where
  elements := content.elements + 1
  depth := content.depth + 1
  ids := attrs.id.toList ++ content.ids

/-- Several parts one after another. -/
def concat (parts : List Extent) : Extent := parts.foldr append none

end Extent

namespace Inlines

/-- The flattened text: spans joined, `br` as a space. -/
def flatten : Inlines → Text
  | .nil => []
  | .text t rest => t ++ rest.flatten
  | .br rest => ' ' :: rest.flatten
  | .span _ _ inlines rest => inlines.flatten ++ rest.flatten

def extent : Inlines → Extent
  | .nil => .none
  | .text _ rest => rest.extent
  | .br rest => .append (.element Attrs.none .none) rest.extent
  | .span _ attrs inlines rest => .append (.element attrs inlines.extent) rest.extent

/-- The first item is a text. -/
def startsWithText : Inlines → Bool
  | .text _ _ => true
  | _ => false

/-- Text nodes are not empty and never adjacent; spans are not empty. -/
def Formed : Inlines → Prop
  | .nil => True
  | .text t rest => t ≠ [] ∧ rest.startsWithText = false ∧ rest.Formed
  | .br rest => rest.Formed
  | .span _ _ inlines rest => inlines ≠ .nil ∧ inlines.Formed ∧ rest.Formed

end Inlines

namespace Leaf

def extent (l : Leaf) : Extent := .element l.attrs l.inlines.extent

/-- Inline content that is not empty, and spaced as declared. -/
structure Formed (l : Leaf) : Prop where
  notEmpty : l.inlines ≠ .nil
  inlines : l.inlines.Formed
  spacing : WellSpaced l.inlines.flatten

end Leaf

namespace Block

def extent : Block → Extent
  | .leaf _ l => l.extent
  | .list _ l => .element l.attrs (.concat (l.items.map Leaf.extent))

/-- A leaf, or a list of one or more items. -/
def Formed : Block → Prop
  | .leaf _ l => l.Formed
  | .list _ l => l.items ≠ [] ∧ ∀ item ∈ l.items, item.Formed

end Block

/-- An element around one or more blocks: a region or a section. -/
def blocksExtent (attrs : Attrs) (blocks : List Block) : Extent :=
  .element attrs (.concat (blocks.map Block.extent))

/-- One or more blocks. -/
def BlocksFormed (blocks : List Block) : Prop := blocks ≠ [] ∧ ∀ b ∈ blocks, b.Formed

namespace MainItem

def extent : MainItem → Extent
  | .sect s => blocksExtent s.attrs s.blocks
  | .block b => b.extent

def Formed : MainItem → Prop
  | .sect s => BlocksFormed s.blocks
  | .block b => b.Formed

end MainItem

/-- The extent of an optional region. -/
def regionExtent : Option Region → Extent
  | some r => blocksExtent r.attrs r.blocks
  | none => .none

namespace Page

/-- The extent of the body. -/
def extent (page : Page) : Extent :=
  .append (regionExtent page.header)
    (.append (.element page.main.attrs (.concat (page.main.items.map MainItem.extent)))
      (regionExtent page.footer))

/-- The declared grammar: the content model, the forms of `lang` and ids, the caps and the spacing
of every leaf and the title. -/
structure WellFormed (page : Page) : Prop where
  lang : LangForm page.lang
  title : WellSpaced page.title
  titleChars : 1 ≤ page.title.length ∧ page.title.length ≤ POLICY_V1.maxTitleChars
  header : ∀ r, page.header = some r → BlocksFormed r.blocks
  main : page.main.items ≠ [] ∧ ∀ item ∈ page.main.items, item.Formed
  footer : ∀ r, page.footer = some r → BlocksFormed r.blocks
  ids : ∀ id ∈ page.extent.ids, IdForm id
  uniqueIds : page.extent.ids.Nodup
  elements : page.extent.elements ≤ POLICY_V1.maxElements
  depth : page.extent.depth ≤ POLICY_V1.maxDepth

end Page

end NexusOs.InertPage
