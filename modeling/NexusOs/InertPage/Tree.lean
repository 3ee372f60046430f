import NexusOs.InertPage.Policy

/-!
# The typed page tree and its writer

`inert_page/tree.rs`: the tree of a page, and the one canonical serialization. The vectors of inline
content are the type `Inlines`, a list whose cells carry the item; the constructors of `Inline` and
`Block` that only differ in their tag are one with the tag. Texts are decoded.
-/

namespace NexusOs.InertPage

open Framing Utf8

/-- `Attrs`: at most one class token and one id. -/
structure Attrs where
  cls : Option Class
  id : Option Text
  deriving DecidableEq

/-- `Attrs::default`. -/
def Attrs.none : Attrs where
  cls := .none
  id := .none

/-- The tags of a span: `Inline::Strong`, `Inline::Em` and `Inline::Small`. -/
inductive SpanTag where
  | strong
  | em
  | small
  deriving DecidableEq

def SpanTag.tag : SpanTag → Tag
  | .strong => .strong
  | .em => .em
  | .small => .small

/-- `Vec<Inline>`: inline content. -/
inductive Inlines where
  | nil
  | text (t : Text) (rest : Inlines)
  | br (rest : Inlines)
  | span (tag : SpanTag) (attrs : Attrs) (inlines : Inlines) (rest : Inlines)
  deriving DecidableEq

/-- `Leaf`: a leaf block or list item. -/
structure Leaf where
  attrs : Attrs
  inlines : Inlines
  deriving DecidableEq

/-- The tags of a leaf block. -/
inductive TextTag where
  | h1
  | h2
  | h3
  | p
  | address
  deriving DecidableEq

def TextTag.tag : TextTag → Tag
  | .h1 => .h1
  | .h2 => .h2
  | .h3 => .h3
  | .p => .p
  | .address => .address

/-- The tags of a list. -/
inductive ListTag where
  | ul
  | ol
  deriving DecidableEq

def ListTag.tag : ListTag → Tag
  | .ul => .ul
  | .ol => .ol

/-- `List`: a `ul` or `ol` and its `li` items. -/
structure ItemList where
  attrs : Attrs
  items : List Leaf
  deriving DecidableEq

/-- `Block`: a leaf block or a list. -/
inductive Block where
  | leaf (tag : TextTag) (leaf : Leaf)
  | list (tag : ListTag) (list : ItemList)
  deriving DecidableEq

/-- `Section`. -/
structure Section where
  attrs : Attrs
  blocks : List Block
  deriving DecidableEq

/-- `MainItem`. -/
inductive MainItem where
  | sect (s : Section)
  | block (b : Block)
  deriving DecidableEq

/-- `Region`: a `header` or `footer`. -/
structure Region where
  attrs : Attrs
  blocks : List Block
  deriving DecidableEq

/-- `Main`. -/
structure Main where
  attrs : Attrs
  items : List MainItem
  deriving DecidableEq

/-- The fields of `Page`; the trees that the source builds on the way are of this type too. -/
structure Page where
  lang : Text
  title : Text
  header : Option Region
  main : Main
  footer : Option Region
  deriving DecidableEq

/-- `Writer`. -/
structure Writer where
  out : Bytes
  limit : Nat

/-- How many writes are left in inline content, its end included. -/
def Inlines.weight : Inlines → Nat
  | .nil => 1
  | .text _ rest => rest.weight + 1
  | .br rest => rest.weight + 1
  | .span _ _ inlines rest => inlines.weight + rest.weight + 1

/-- The entity of a special character. -/
def entityOf (c : Char) : Option Text :=
  (POLICY_V1.entities.find? fun entity => entity.1 = c).map Prod.snd

namespace Writer

/-- `Writer::raw`. -/
def raw (s : Text) (w : Writer) : Writer :=
  if w.out.length ≤ w.limit then { w with out := w.out ++ encode s } else w

/-- `Writer::text`: each of the five special characters as its entity. -/
def text : Text → Writer → Writer
  | [], w => w
  | c :: s, w =>
    if w.out.length > w.limit then w
    else
      match entityOf c with
      | some entity => text s (w.raw entity)
      | none => text s (w.raw [c])

/-- One attribute of `Writer::open`. -/
def writeAttribute (name : Text) (value : Option Text) (w : Writer) : Writer :=
  match value with
  | some value => w.raw " " |>.raw name |>.raw "=\"" |>.raw value |>.raw "\""
  | none => w

/-- `Writer::open`. -/
def openTag (tag : Tag) (attrs : Attrs) (w : Writer) : Writer :=
  w.raw "<" |>.raw tag.name
    |>.writeAttribute POLICY_V1.className (attrs.cls.map Class.name)
    |>.writeAttribute POLICY_V1.idName attrs.id
    |>.raw ">"

/-- `Writer::close`. -/
def closeTag (tag : Tag) (w : Writer) : Writer := w.raw "</" |>.raw tag.name |>.raw ">"

/-- `Writer::container`. -/
def container (tag : Tag) (attrs : Attrs) (children : Writer → Writer) (w : Writer) : Writer :=
  (children (w.openTag tag attrs |>.raw "\n")).closeTag tag |>.raw "\n"

/-- The loop of `Writer::inlines`, over the stack of open spans, innermost first. -/
def inlinesLoop : List (Inlines × Option SpanTag) → Writer → Writer
  | [], w => w
  | (.nil, none) :: stack, w => inlinesLoop stack w
  | (.nil, some tag) :: stack, w => inlinesLoop stack (w.closeTag tag.tag)
  | (.text t rest, top) :: stack, w => inlinesLoop ((rest, top) :: stack) (w.text t)
  | (.br rest, top) :: stack, w => inlinesLoop ((rest, top) :: stack) (w.openTag .br Attrs.none)
  | (.span tag attrs inlines rest, top) :: stack, w =>
    inlinesLoop ((inlines, some tag) :: (rest, top) :: stack) (w.openTag tag.tag attrs)
  termination_by stack => (stack.map fun frame => frame.1.weight).sum
  decreasing_by all_goals simp only [List.map_cons, List.sum_cons, Inlines.weight]; omega

/-- `Writer::inlines`. -/
def inlines (content : Inlines) (w : Writer) : Writer := w.inlinesLoop [(content, none)]

/-- `Writer::leaf`. -/
def leaf (tag : Tag) (l : Leaf) (w : Writer) : Writer :=
  w.openTag tag l.attrs |>.inlines l.inlines |>.closeTag tag |>.raw "\n"

/-- `Writer::list`. -/
def list (tag : Tag) (l : ItemList) (w : Writer) : Writer :=
  w.container tag l.attrs fun w => l.items.foldl (fun w item => w.leaf .li item) w

/-- `Writer::block`. -/
def block (b : Block) (w : Writer) : Writer :=
  match b with
  | .leaf tag l => w.leaf tag.tag l
  | .list tag l => w.list tag.tag l

/-- `Writer::blocks`. -/
def blocks (bs : List Block) (w : Writer) : Writer := bs.foldl (fun w b => w.block b) w

/-- An optional region of `write_page`. -/
def region (tag : Tag) (region : Option Region) (w : Writer) : Writer :=
  match region with
  | some r => w.container tag r.attrs fun w => w.blocks r.blocks
  | none => w

/-- One item of `main` in `write_page`. -/
def mainItem (item : MainItem) (w : Writer) : Writer :=
  match item with
  | .sect s => w.container Tag.section s.attrs fun w => w.blocks s.blocks
  | .block b => w.block b

end Writer

/-- `write_page`: the canonical bytes of `page`, stopping once past `limit` bytes. -/
def writePage (page : Page) (limit : Nat) : Bytes :=
  let w : Writer := { out := [], limit }
  (w.raw POLICY_V1.head |>.raw page.lang |>.raw POLICY_V1.afterLang |>.text page.title
    |>.raw POLICY_V1.afterTitle |>.raw POLICY_V1.css |>.raw POLICY_V1.afterCss
    |>.region .header page.header
    |>.container .main page.main.attrs
      (fun w => page.main.items.foldl (fun w item => w.mainItem item) w)
    |>.region .footer page.footer
    |>.raw POLICY_V1.epilogue).out

/-- `serialize`: the canonical bytes of `page`. -/
def serialize (page : Page) : Bytes := writePage page (2 ^ 64 - 1)

end NexusOs.InertPage
