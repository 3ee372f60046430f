import NexusOs.InertPage.Tree

/-!
# The strict parse

`inert_page/parse.rs`: S3, the parse of a candidate that passed S1 and S2 into the typed tree. The
input is the list of its characters, the cursor the characters from it on; offsets count bytes.
Loops take as fuel at least the number of characters left: every turn consumes one.
-/

namespace NexusOs.InertPage

open Utf8

/-- `Fail`: a refusal code and the byte offset where it applies. -/
abbrev Fail := RefusalCode × Nat

/-- `Name`: a tag name at the cursor. -/
inductive Name where
  | tag (t : Tag)
  | other
  deriving DecidableEq

/-- `Next`: what is at the cursor. -/
inductive Next where
  | start (name : Name)
  | stop (name : Name)
  | text
  | eof
  deriving DecidableEq

/-- `Prev`: the previous item of a flattened text. -/
inductive Prev where
  | start
  | char
  | space
  | br
  deriving DecidableEq

/-- `Flow`: the spacing, word and length state of one flattened text. -/
structure Flow where
  prev : Prev
  word : Nat
  chars : Nat
  deriving DecidableEq

namespace Flow

/-- `Flow::new`. -/
def new : Flow where
  prev := .start
  word := 0
  chars := 0

/-- `Flow::char`. -/
def char (flow : Flow) (c : Char) (offset : Nat) : Except Fail Flow :=
  let chars := flow.chars + 1
  if c = '\n' then .error (.textSpacing, offset)
  else if c = ' ' then
    if flow.prev ≠ .char then .error (.textSpacing, offset)
    else .ok { prev := .space, word := 0, chars }
  else if flow.word + 1 > POLICY_V1.maxWordChars then .error (.wordTooLong, offset)
  else .ok { prev := .char, word := flow.word + 1, chars }

/-- `Flow::br`. -/
def br (flow : Flow) (offset : Nat) : Except Fail Flow :=
  if flow.prev ≠ .char then .error (.textSpacing, offset)
  else .ok { flow with prev := .br, word := 0 }

/-- `Flow::end`. -/
def finish (flow : Flow) (offset : Nat) : Except Fail Unit :=
  match flow.prev with
  | .space | .br => .error (.textSpacing, offset)
  | .start | .char => .ok ()

end Flow

/-- `is_block`, with the block each tag starts. -/
def blockTag? : Tag → Option (TextTag ⊕ ListTag)
  | .h1 => some (.inl .h1)
  | .h2 => some (.inl .h2)
  | .h3 => some (.inl .h3)
  | .p => some (.inl .p)
  | .address => some (.inl .address)
  | .ul => some (.inr .ul)
  | .ol => some (.inr .ol)
  | _ => none

/-- The span a tag starts. -/
def spanTag? : Tag → Option SpanTag
  | .strong => some .strong
  | .em => some .em
  | .small => some .small
  | _ => none

/-- `lang_ok`. -/
def langOk : Text → Bool
  | [a, b] => a.isLower && b.isLower
  | [a, b, '-', c, d] => a.isLower && b.isLower && c.isUpper && d.isUpper
  | _ => false

/-- `id_ok`. -/
def idOk : Text → Bool
  | [] => false
  | first :: rest =>
    first.isLower && rest.length + 1 ≤ POLICY_V1.maxIdChars &&
      rest.all fun c => c.isLower || c.isDigit || c = '-'

/-- The characters two texts begin with in common. -/
def agreeing : Text → Text → Text
  | a :: as, b :: bs => if a = b then a :: agreeing as bs else []
  | _, _ => []

/-- The text before the first place where `needle` is found, or all of it. -/
def before (needle : Text) : Text → Text
  | [] => []
  | c :: rest => if needle.isPrefixOf (c :: rest) then [] else c :: before needle rest

/-! ## The parser -/

/-- `Parser`. The open elements are kept innermost first. -/
structure Parser where
  text : Text
  rest : Text
  openTags : List Tag
  elements : Nat
  ids : List Text

/-- A part of the parse: it fails, or moves the cursor on. -/
abbrev Parse := StateT Parser (Except Fail)

namespace Parser

variable (s : Parser)

/-- `pos`: the byte offset of the cursor. -/
def pos : Nat := size s.text - size s.rest

/-- A failure at a byte offset. -/
def fail {α : Type} (code : RefusalCode) (offset : Nat) : Parse α := throw (code, offset)

/-- `at`. -/
def atText (lit : Text) : Bool := lit.isPrefixOf s.rest

/-- `fixed`: consumes `lit`, or fails with `code` at the first differing byte. -/
def fixed (lit : Text) (code : RefusalCode) : Parse Unit := do
  let s ← get
  let same := agreeing lit s.rest
  if same.length < lit.length then fail code (s.pos + size same)
  else set { s with rest := s.rest.drop lit.length }

/-- `name_at`. -/
def nameAt (rest : Text) : Name :=
  let name := rest.takeWhile Char.isAlphanum
  match POLICY_V1.bodyTags.find? fun t => t.name = name with
  | some t => .tag t
  | none => .other

/-- `peek`. -/
def peek : Next :=
  match s.rest with
  | [] => .eof
  | '<' :: '/' :: c :: rest => if c.isAlpha then .stop (nameAt (c :: rest)) else .text
  | '<' :: c :: rest => if c.isAlpha then .start (nameAt (c :: rest)) else .text
  | _ => .text

/-- `peek_start`. -/
def peekStart (tag : Tag) : Bool := s.peek = .start (.tag tag)

/-- `optional_lf`. -/
def optionalLf : Parse Unit := do
  let s ← get
  if s.rest.head? = some '\n' then set { s with rest := s.rest.tail } else pure ()

/-- `misplaced`. -/
def misplaced : Fail :=
  match s.peek with
  | .eof => (.tagUnclosed, s.pos)
  | _ => (.contentModel, s.pos)

/-- `foreign_end`. -/
def foreignEnd (name : Name) (inline : Bool) : Fail :=
  let code : RefusalCode :=
    match name with
    | .tag .br => .voidSyntax
    | .tag t => if !inline && t ∈ s.openTags then .tagUnclosed else .tagMisnested
    | .other => if !inline then .tagUnclosed else .tagMisnested
  (code, s.pos)

/-- `lang`. -/
def lang : Parse Text := do
  let s ← get
  let value := s.rest.takeWhile fun c => c ≠ '"'
  if !langOk value then fail .langInvalid s.pos
  else
    set { s with rest := s.rest.drop value.length }
    return value

/-- The character at the cursor, an entity decoded, and the characters after it. -/
def nextChar (title : Bool) : Except Fail (Char × Text) :=
  match s.rest with
  | [] => .error (.tagUnclosed, s.pos)
  | c :: rest =>
    if c = '&' then
      match POLICY_V1.entities.find? fun e => e.2.isPrefixOf s.rest with
      | some (c, entity) => .ok (c, s.rest.drop entity.length)
      | none => .error (.entityNotAllowed, s.pos)
    else if c = '>' then .error (if title then .titleInvalid else .contentModel, s.pos)
    else .ok (c, rest)

/-- `text_run`: decoded text up to the next `<`, through `flow`. -/
def textRun (title : Bool) : Nat → Flow → Parse (Text × Flow)
  | 0, flow => return ([], flow)
  | fuel + 1, flow => do
    let s ← get
    if s.rest = [] || s.rest.head? = some '<' then return ([], flow)
    else
      let (c, rest) ← s.nextChar title
      set { s with rest }
      let flow ← flow.char c s.pos
      if title && flow.chars > POLICY_V1.maxTitleChars then fail .titleInvalid s.pos
      else
        let (out, flow) ← textRun title fuel flow
        return (c :: out, flow)

/-- `title`. -/
def title : Parse Text := do
  let s ← get
  let (title, flow) ← textRun true s.rest.length .new
  let s ← get
  match s.peek with
  | .start _ => fail .titleInvalid s.pos
  | _ =>
    if flow.chars = 0 then fail .titleInvalid s.pos
    else
      flow.finish s.pos
      return title

/-- `css`: every byte up to the first `</style` must be Mother's. -/
def css : Parse Unit := do
  let s ← get
  let region := before ("</" ++ POLICY_V1.styleTag) s.rest
  if region ≠ POLICY_V1.css then
    fail .cssMismatch (s.pos + size (agreeing region POLICY_V1.css))
  else set { s with rest := s.rest.drop POLICY_V1.css.length }

/-! ### Tags -/

/-- `enter`. -/
def enter (tag : Tag) : Parse Unit := do
  let s ← get
  let elements := s.elements + 1
  if elements > POLICY_V1.maxElements then fail .tooManyElements s.pos
  else if s.openTags.length ≥ POLICY_V1.maxDepth then fail .depthExceeded s.pos
  else set { s with elements, openTags := tag :: s.openTags }

/-- The value of a `class` attribute. -/
def classValue (value : Text) : Except Fail Class :=
  match POLICY_V1.classes.find? fun c => c.name = value with
  | some c => .ok c
  | none => .error (.classNotAllowed, s.pos)

/-- The value of an `id` attribute, entered in the id set. -/
def idValue (value : Text) : Parse Unit := do
  let s ← get
  if !idOk value then fail .idInvalid s.pos
  else if value ∈ s.ids then fail .idDuplicate s.pos
  else set { s with ids := s.ids ++ [value] }

/-- The value of an attribute of this name, entered in `attrs`. -/
def attributeValue (name value : Text) (attrs : Attrs) : Parse Attrs := do
  if name = POLICY_V1.className then
    let c ← (← get).classValue value
    return { attrs with cls := some c }
  else
    idValue value
    return { attrs with id := some value }

/-- One turn of `attributes`, after the space; `attrs` has the class or id that was seen. -/
def attributeAt (attrs : Attrs) : Parse Attrs := do
  let s ← get
  let name := s.rest.takeWhile fun c => c ∉ [' ', '=', '>', '/', '\n', '"', '\'']
  if name = [] ∨ name = POLICY_V1.className ∧ attrs.cls.isSome ∨
      name = POLICY_V1.idName ∧ attrs.id.isSome then
    fail .attributeSyntax s.pos
  else if name ≠ POLICY_V1.className ∧ name ≠ POLICY_V1.idName then
    fail .attributeNotAllowed s.pos
  else
    let s := { s with rest := s.rest.drop name.length }
    if !s.atText "=\"" then fail .attributeSyntax s.pos
    else
      let s := { s with rest := s.rest.drop 2 }
      if '"' ∉ s.rest then fail .attributeSyntax s.pos
      else
        let value := s.rest.takeWhile fun c => c ≠ '"'
        set s
        let attrs ← attributeValue name value attrs
        modify fun s => { s with rest := s.rest.drop (value.length + 1) }
        return attrs

/-- `attributes`. -/
def attributes : Nat → Attrs → Parse Attrs
  | 0, _ => do fail .tagUnclosed (← get).pos
  | fuel + 1, attrs => do
    let s ← get
    let next := s.rest.head?
    if next = some '>' then
      set { s with rest := s.rest.tail }
      return attrs
    else if next = some '/' then fail .voidSyntax s.pos
    else if next = some ' ' then
      set { s with rest := s.rest.tail }
      let attrs ← attributeAt attrs
      attributes fuel attrs
    else if next.isSome then fail .attributeSyntax s.pos
    else fail .tagUnclosed s.pos

/-- `start_tag`: a `br` is `<br>` exactly and is left at once. -/
def startTag (tag : Tag) : Parse Attrs := do
  enter tag
  modify fun s => { s with rest := s.rest.drop (1 + tag.name.length) }
  let s ← get
  if tag = .br then
    if s.rest.head? ≠ some '>' then fail .voidSyntax s.pos
    else
      set { s with rest := s.rest.tail, openTags := s.openTags.tail }
      return Attrs.none
  else attributes (s.rest.length + 1) Attrs.none

/-- `end_tag`: the element is left. -/
def endTag (tag : Tag) : Parse Unit := do
  modify fun s => { s with rest := s.rest.drop (2 + tag.name.length) }
  let s ← get
  if s.rest.head? ≠ some '>' then fail .attributeSyntax s.pos
  else set { s with rest := s.rest.tail, openTags := s.openTags.tail }

/-- Inline content that may not be empty. -/
def nonEmpty (content : Parse (Inlines × Flow)) : Parse (Inlines × Flow) := do
  let (out, flow) ← content
  if out = .nil then fail .emptyElement (← get).pos
  else return (out, flow)

/-- The loop of `inlines`. -/
def inlinesLoop : Nat → Tag → Flow → Parse (Inlines × Flow)
  | 0, _, _ => do fail .tagUnclosed (← get).pos
  | fuel + 1, parent, flow => do
    let s ← get
    match s.peek with
    | .start (.tag t) =>
      if t = .br then
        let flow ← flow.br s.pos
        let _ ← startTag .br
        let (out, flow) ← inlinesLoop fuel parent flow
        return (.br out, flow)
      else
        match spanTag? t with
        | some span =>
          let attrs ← startTag t
          let (inlines, flow) ← nonEmpty (inlinesLoop fuel t flow)
          endTag t
          let (out, flow) ← inlinesLoop fuel parent flow
          return (.span span attrs inlines out, flow)
        | none => fail .contentModel s.pos
    | .start .other => fail .contentModel s.pos
    | .stop name =>
      if name = .tag parent then return (.nil, flow) else throw (s.foreignEnd name true)
    | .text =>
      if s.rest.head? = some '<' then fail .contentModel s.pos
      else
        let (t, flow) ← textRun false s.rest.length flow
        let (out, flow) ← inlinesLoop fuel parent flow
        return (.text t out, flow)
    | .eof => fail .tagUnclosed s.pos

variable (fuel : Nat)

/-- `inlines`: inline content up to `</parent>`, which is left for the caller. -/
def inlines (parent : Tag) (flow : Flow) : Parse (Inlines × Flow) :=
  nonEmpty (inlinesLoop fuel parent flow)

/-- `leaf`. -/
def leaf (t : Tag) : Parse Leaf := do
  let attrs ← startTag t
  let (inlines, flow) ← inlines fuel t .new
  flow.finish (← get).pos
  endTag t
  optionalLf
  return { attrs, inlines }

/-! ### Lists, blocks and containers -/

/-- The end of a list or container: its children, at least one, its end tag and line feed. -/
def closing {α : Type} (t : Tag) (children : Parse (List α)) : Parse (List α) := do
  let items ← children
  if items.isEmpty then fail .emptyElement (← get).pos
  else
    endTag t
    optionalLf
    return items

/-- The loop of `list`. -/
def itemsLoop : Nat → Tag → Parse (List Leaf)
  | 0, _ => do fail .tagUnclosed (← get).pos
  | fuel + 1, t => do
    let s ← get
    match s.peek with
    | .start name =>
      if name = .tag .li then
        let item ← leaf fuel .li
        return item :: (← itemsLoop fuel t)
      else fail .contentModel s.pos
    | .text => fail .contentModel s.pos
    | .stop name => if name = .tag t then return [] else throw (s.foreignEnd name false)
    | .eof => fail .tagUnclosed s.pos

/-- `list`. -/
def list (t : Tag) : Parse ItemList := do
  let attrs ← startTag t
  optionalLf
  return { attrs, items := ← closing t (itemsLoop fuel t) }

/-- `block`. -/
def block (t : TextTag ⊕ ListTag) : Parse Block :=
  match t with
  | .inl t => return .leaf t (← leaf fuel t.tag)
  | .inr t => return .list t (← list fuel t.tag)

/-- The blocks among the children of a container: `blocks`. -/
def blocksOf (items : List MainItem) : List Block :=
  items.filterMap fun item =>
    match item with
    | .block b => some b
    | .sect _ => none

/-- The loop of `children`. -/
def childrenLoop : Nat → Tag → Bool → Parse (List MainItem)
  | 0, _, _ => do fail .tagUnclosed (← get).pos
  | fuel + 1, container, sections => do
    let s ← get
    match s.peek with
    | .start (.tag t) =>
      if t = Tag.section && sections then
        let attrs ← startTag Tag.section
        optionalLf
        let items ← closing Tag.section (childrenLoop fuel Tag.section false)
        return .sect { attrs, blocks := blocksOf items } :: (← childrenLoop fuel container sections)
      else
        match blockTag? t with
        | some t =>
          let b ← block fuel t
          return .block b :: (← childrenLoop fuel container sections)
        | none => fail .contentModel s.pos
    | .start .other | .text => fail .contentModel s.pos
    | .stop name => if name = .tag container then return [] else throw (s.foreignEnd name false)
    | .eof => fail .tagUnclosed s.pos

/-- `children`: the children of a container through its end tag. -/
def children (container : Tag) (sections : Bool) : Parse (List MainItem) :=
  closing container (childrenLoop fuel container sections)

/-- `region`. -/
def region (tag : Tag) : Parse Region := do
  let attrs ← startTag tag
  optionalLf
  return { attrs, blocks := blocksOf (← children fuel tag false) }

/-- `main`. -/
def main (fuel : Nat) : Parse Main := do
  let attrs ← startTag .main
  optionalLf
  return { attrs, items := ← children fuel .main true }

/-- A `header` or `footer`, if one is at the cursor. -/
def optionalRegion (tag : Tag) : Parse (Option Region) := do
  if (← get).peekStart tag then return some (← region fuel tag) else return none

/-- The end of `document`. -/
def finish : Parse Unit := do
  let s ← get
  if !s.atText POLICY_V1.epilogue then throw s.misplaced
  else
    let s := { s with rest := s.rest.drop POLICY_V1.epilogue.length }
    if s.rest ≠ [] then fail .trailingContent s.pos else set s

/-- The body in `document`, and its end. -/
def body (lang title : Text) : Parse Page := do
  let header ← optionalRegion fuel .header
  let s ← get
  if !s.peekStart .main then throw s.misplaced
  else
    let main ← main fuel
    let footer ← optionalRegion fuel .footer
    finish
    return { lang, title, header, main, footer }

/-- `document`. -/
def document : Parse Page := do
  fixed POLICY_V1.head .prologueMismatch
  let lang ← lang
  fixed POLICY_V1.afterLang .prologueMismatch
  let title ← title
  fixed POLICY_V1.afterTitle .prologueMismatch
  css
  fixed POLICY_V1.afterCss .prologueMismatch
  body fuel lang title

end Parser

/-- `parse_document`. -/
def parseDocument (text : Text) : Except Fail Page :=
  let s : Parser := { text, rest := text, openTags := [], elements := 0, ids := [] }
  (Parser.document (text.length + 1) s).map Prod.fst

end NexusOs.InertPage
