import NexusOs.Mother.Mission
import NexusOs.Mother.Verifier

/-!
# The page Builder

`mother/src/page_builder`: the draft a model answers with (`draft.rs`), the page that is built
from a draft and the approved facts (`assemble.rs`), and the Builder, which takes a draft or asks
for one correction (`mod.rs`). Reading an answer as JSON is left to the caller.
-/

namespace NexusOs.PageBuilder

open Framing Utf8 InertPage Verifier

/-- `DraftCode`. -/
inductive DraftCode where
  | notOneObject
  | empty
  | markup
  | charNotAllowed
  | wordTooLong
  | tooLarge
  | foreignNumber
  | email
  | needle
  | assemblerFault
  deriving DecidableEq

/-- What `DraftCode::correction` tells the model. -/
def DraftCode.hint : DraftCode → Option Text
  | .notOneObject => some "answer with exactly one JSON object that matches the schema."
  | .empty => some "a part of the answer is empty."
  | .markup => some "write plain text only, with no HTML tags and no angle brackets."
  | .charNotAllowed =>
    some ("use only Latin letters, digits and common punctuation; " ++ "no emoji or other scripts.")
  | .wordTooLong => some "every word must have at most 40 characters."
  | .tooLarge => some "the page is too long; write fewer and shorter parts."
  | .foreignNumber =>
    some ("write no phone numbers and no long numbers; " ++ "the system adds the phone number.")
  | .email => some "write no email addresses."
  | .needle | .assemblerFault => none

/-- `DraftCode::correction`. -/
def DraftCode.correction (code : DraftCode) : Option Text :=
  code.hint.map fun text => "\n\nNexus backend result:\nRejected: " ++ text

/-- `BuildInputCode`. -/
inductive BuildInputCode where
  | factsNotPageReady
  | invalidNote
  | invalidMarker
  | notesAndFactsTooLarge
  | requestTooLarge
  | internal
  deriving DecidableEq

/-! ## Drafts -/

/-- `DraftSection`. -/
structure DraftSection where
  heading : Text
  paragraphs : List Text
  items : List Text
  deriving DecidableEq

/-- `PageDraft`. -/
structure PageDraft where
  lead : Text
  sections : List DraftSection
  footer : Text
  deriving DecidableEq

/-- The texts of a section. -/
def DraftSection.texts (s : DraftSection) : List Text := s.heading :: s.paragraphs ++ s.items

/-- `PageDraft::texts`. -/
def PageDraft.texts (d : PageDraft) : List Text :=
  d.lead :: d.sections.flatMap DraftSection.texts ++ [d.footer]

/-- `normalize`: tabs and line ends as spaces, and one space between words. -/
def normalize (s : Text) : Text :=
  let spaced := s.map fun c => if c ∈ ['\t', '\n', '\r'] then ' ' else c
  [' '].intercalate ((spaced.splitOn ' ').filter fun w => w ≠ [])

variable (d : PageDraft) (facts : ApprovedFacts)

/-- The draft with every text normalized. -/
def PageDraft.normalized : PageDraft where
  lead := normalize d.lead
  footer := normalize d.footer
  sections := d.sections.map fun s =>
    { heading := normalize s.heading
      paragraphs := s.paragraphs.map normalize
      items := s.items.map normalize }

/-- The limits of `parse_draft` on a section are not kept. -/
def DraftSection.tooLarge (s : DraftSection) : Bool :=
  s.heading.length > 80 || !(1 ≤ s.paragraphs.length && s.paragraphs.length ≤ 2) ||
    s.items.length > 8 || (s.paragraphs.any fun t => t.length > 400) ||
    s.items.any fun t => t.length > 120

/-- The limits of `parse_draft` are not kept. -/
def PageDraft.tooLarge (d : PageDraft) : Bool :=
  d.lead.length > 240 || d.footer.length > 160 ||
    !(1 ≤ d.sections.length && d.sections.length ≤ 4) || d.sections.any DraftSection.tooLarge

/-- The first code of `parse_draft` for a normalized draft. Each pass spans all fields: an
earlier field cannot hide a higher priority code. -/
def PageDraft.code : Option DraftCode :=
  if d.texts.any fun s =>
      POLICY_V1.needles.any fun needle => decide (needle.1 <:+: asciiLowercase s) then
    some .needle
  else if d.texts.any fun s => s.any fun c => c = '<' || c = '>' then some .markup
  else if d.texts.any fun s => s.any fun c => !inRanges POLICY_V1.profileRanges c then
    some .charNotAllowed
  else if d.texts.any fun s => (s.splitOn ' ').any fun w => w.length > 40 then
    some .wordTooLong
  else if d.texts.any fun s => s = [] then some .empty
  else if d.tooLarge then some .tooLarge
  else none

/-- `parse_draft`, with the JSON reader. -/
def parseDraft (fromStr : Text → Option PageDraft) (answer : Text) : Except DraftCode PageDraft :=
  match fromStr answer with
  | none => .error .notOneObject
  | some d =>
    match d.normalized.code with
    | some code => .error code
    | none => .ok d.normalized

/-! ## Pages -/

/-- `leaf`. -/
def leaf (s : Text) : Leaf where
  attrs := Attrs.none
  inlines := .text s .nil

/-- `list`. -/
def list (texts : List Text) (cls : Option InertPage.Class) : ItemList where
  attrs := { cls, id := none }
  items := texts.map leaf

/-- `section`. -/
def sectionItem (id : Option Text) (blocks : List Block) : MainItem :=
  .sect { attrs := { cls := none, id }, blocks }

/-- A leaf of a class. -/
def classLeaf (cls : InertPage.Class) (s : Text) : Leaf where
  attrs := { cls := some cls, id := none }
  inlines := .text s .nil

/-- The blocks of a section of the draft. -/
def DraftSection.blocks (s : DraftSection) : List Block :=
  .leaf .h2 (leaf s.heading) :: s.paragraphs.map (fun p => .leaf .p (leaf p)) ++
    if s.items = [] then [] else [.list .ul (list s.items none)]

/-- The section of the opening hours. -/
def hoursItem (facts : ApprovedFacts) : MainItem :=
  sectionItem (some "hours")
    [.leaf .h2 (leaf "Opening hours"), .list .ul (list facts.hours (some .plain))]

/-- The leaf of the phone. -/
def phoneLeaf (facts : ApprovedFacts) : Leaf where
  attrs := Attrs.none
  inlines := .text "Phone: "
    (.span .strong (leaf facts.phone).attrs (leaf facts.phone).inlines .nil)

/-- The section of the contact. -/
def contactItem (facts : ApprovedFacts) : MainItem :=
  sectionItem (some "contact") [.leaf .h2 (leaf "Contact"), .leaf .p (phoneLeaf facts)]

/-- The parts `build_page` gives to `Page::new`. -/
def pageOf : Page where
  lang := "en"
  title := facts.name
  header := some
    { attrs := Attrs.none
      blocks := [.leaf .h1 (leaf facts.name), .leaf .p (classLeaf .lead d.lead)] }
  main :=
    { attrs := Attrs.none
      items := d.sections.map (fun s => sectionItem none s.blocks) ++
        [hoursItem facts, contactItem facts] }
  footer := some { attrs := Attrs.none, blocks := [.leaf .p (classLeaf .muted d.footer)] }

/-- `build_page`. -/
def buildPage : Except DraftCode Page :=
  let page := pageOf d facts
  match Page.new page.lang page.title page.header page.main page.footer with
  | .ok page => .ok page
  | .error _ => .error .assemblerFault

/-- The fixed draft of `facts_ready`. -/
def fixedDraft : PageDraft where
  lead := "Welcome."
  sections := [{ heading := "About us", paragraphs := ["Visit us."], items := [] }]
  footer := "Thank you."

/-- `facts_ready`. -/
def factsReady (l : Letters) (facts : ApprovedFacts) : Except BuildInputCode Unit :=
  match buildPage fixedDraft facts with
  | .error _ => .error .factsNotPageReady
  | .ok page =>
    match checkFacts page facts with
    | .error _ => .error .factsNotPageReady
    | .ok () => if emailScan l page then .error .factsNotPageReady else .ok ()

/-- `facts_page_ready`. -/
def factsPageReady (l : Letters) (facts : ApprovedFacts) : Bool := (factsReady l facts).isOk

/-- The number of `str::lines`: each ends with a line feed or with the text. -/
def lineCount (text : Text) : Nat :=
  text.count '\n' + if text.getLast?.all fun c => c = '\n' then 0 else 1

/-- `file_limits`. -/
def fileLimits (text : Text) : Except DraftCode Unit :=
  if size text > 8192 ∨ lineCount text > 150 then .error .tooLarge else .ok ()

/-- `assemble`. -/
def assemble (l : Letters) (d : PageDraft) (facts : ApprovedFacts) : Except DraftCode Bytes :=
  match buildPage d facts with
  | .error code => .error code
  | .ok page =>
    let bytes := serialize page
    match check bytes with
    | .error _ => .error .assemblerFault
    | .ok checked =>
      match checkFacts checked facts with
      | .error .foreignNumber => .error .foreignNumber
      | .error _ => .error .assemblerFault
      | .ok () =>
        if emailScan l checked then .error .email
        else
          match fromUtf8 bytes with
          | .error _ => .error .assemblerFault
          | .ok text =>
            match fileLimits text with
            | .error code => .error code
            | .ok () => .ok bytes

/-- `create_file`. -/
def createFile (content : Text) : List Mother.EffectRequest :=
  [.createFile "index.html" (String.ofList content)]

/-- `file_requests`. -/
def fileRequests (l : Letters) (d : PageDraft) (facts : ApprovedFacts) :
    Except DraftCode (List Mother.EffectRequest) :=
  match assemble l d facts with
  | .error code => .error code
  | .ok bytes =>
    match fromUtf8 bytes with
    | .error _ => .error .assemblerFault
    | .ok content => .ok (createFile content)

/-- `Builder`. -/
structure Builder where
  attempts : Nat
  done : Bool

/-- `Builder::default`. -/
def Builder.default : Builder where
  attempts := 0
  done := false

/-- `BuildStep`. -/
inductive BuildStep where
  | correction (text : Text)
  | file (files : List Mother.EffectRequest)
  | failed (code : DraftCode)
  | closed

/-- What `Builder::answer` makes of an answer: the requests for its file, or a code. -/
def requestsOf (fromStr : Text → Option PageDraft) (l : Letters) (facts : ApprovedFacts)
    (answer : Text) : Except DraftCode (List Mother.EffectRequest) :=
  match parseDraft fromStr answer with
  | .error code => .error code
  | .ok d => fileRequests l d facts

/-- `Builder::answer`, with the JSON reader. -/
def Builder.answer (fromStr : Text → Option PageDraft) (l : Letters) (facts : ApprovedFacts)
    (b : Builder) (answer : Text) : BuildStep × Builder :=
  if b.done then (.closed, b)
  else
    let b := { b with attempts := b.attempts + 1 }
    match requestsOf fromStr l facts answer with
    | .ok files => (.file files, { b with done := true })
    | .error code =>
      match if b.attempts < 2 then code.correction else none with
      | some text => (.correction text, b)
      | none => (.failed code, { b with done := true })

/-- The steps of a Builder over a sequence of answers. -/
def Builder.steps (fromStr : Text → Option PageDraft) (l : Letters) (facts : ApprovedFacts) :
    Builder → List Text → List BuildStep
  | _, [] => []
  | b, answer :: answers =>
    let (step, b) := b.answer fromStr l facts answer
    step :: b.steps fromStr l facts answers

end NexusOs.PageBuilder
