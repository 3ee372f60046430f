import NexusOs.InertPage.Verdict

/-!
# Mother's deterministic page Verifier

`mother/src/verifier.rs`: the checks V0 to V5 over a candidate, its facts and its receipt, the
second reader of the page's visible text, and the email scan. Syntax the reader does not know
(`ReaderUnsupported`) is `none`.
-/

namespace NexusOs.Verifier

open Framing Utf8 InertPage

/-! ## The second reader -/

/-- `LeafTag`. -/
inductive LeafTag where
  | h1
  | h2
  | h3
  | p
  | li
  | address
  deriving DecidableEq

namespace LeafTag

/-- `LeafTag::ALL`. -/
def all : List LeafTag := [.h1, .h2, .h3, .p, .li, .address]

/-- `LeafTag::name`. -/
def name : LeafTag → Text
  | .h1 => "h1"
  | .h2 => "h2"
  | .h3 => "h3"
  | .p => "p"
  | .li => "li"
  | .address => "address"

end LeafTag

/-- `VisibleLine`. -/
structure VisibleLine where
  tag : LeafTag
  text : Text
  deriving DecidableEq

/-- `VisibleText`. -/
structure VisibleText where
  title : Text
  lines : List VisibleLine
  deriving DecidableEq

/-- `CONTAINERS`. -/
def containers : List Text := ["header", "main", "section", "ul", "ol", "footer"]

/-- `SPANS`. -/
def spans : List Text := ["strong", "em", "small"]

/-- `ENTITIES`. -/
def entities : List (Text × Char) :=
  [("&amp;", '&'), ("&lt;", '<'), ("&gt;", '>'), ("&quot;", '"'), ("&#39;", '\'')]

/-- The text before the first `needle` and the text after it: `str::find`, with both slices. -/
def splitOnce (needle : Text) : Text → Option (Text × Text)
  | [] => none
  | c :: rest =>
    if needle.isPrefixOf (c :: rest) then some ([], (c :: rest).drop needle.length)
    else (splitOnce needle rest).map fun parts => (c :: parts.1, parts.2)

/-- `between`: the text between the first `opening` and the next `closing` after it. -/
def between (text opening closing : Text) : Option Text := do
  let (_, rest) ← splitOnce opening text
  let (inner, _) ← splitOnce closing rest
  return inner

/-- `TagAt`. -/
inductive TagAt where
  | opened (name : Text) (attributes : Bool)
  | closed (name : Text)
  deriving DecidableEq

/-- A character of `is_name`. -/
def nameChar (c : Char) : Bool := c.isLower || c.isDigit

/-- `is_name`. -/
def isName (name : Text) : Bool := name ≠ [] && name.all nameChar

/-- `str::strip_prefix`. -/
def stripped (start text : Text) : Option Text :=
  if start.isPrefixOf text then some (text.drop start.length) else none

/-- The loop of `tag_at` over the attributes, with whether a class and an id were seen: whether
there were any, and the rest after the tag. -/
def attributesAt : Nat → Bool → Bool → Text → Option (Bool × Text)
  | 0, _, _, _ => none
  | fuel + 1, seenClass, seenId, rest =>
    match stripped ">" rest with
    | some after => some (seenClass || seenId, after)
    | none => do
      let named ← stripped " " rest
      let (isClass, value) ←
        match stripped "class=\"" named with
        | some value => some (true, value)
        | none => (stripped "id=\"" named).map fun value => (false, value)
      let (value, after) ← splitOnce "\"" value
      let seen := if isClass then seenClass else seenId
      if seen || value = [] || !value.all (fun c => nameChar c || c = '-') then none
      else attributesAt fuel (seenClass || isClass) (seenId || !isClass) after

/-- `tag_at`: the tag at the start of `s`, and the rest of `s` after it. -/
def tagAt (s : Text) : Option (TagAt × Text) := do
  let s ← stripped "<" s
  match stripped "/" s with
  | some rest =>
    let (name, after) ← splitOnce ">" rest
    if !isName name then none else some (.closed name, after)
  | none =>
    let name := s.takeWhile fun c => c ≠ ' ' && c ≠ '>'
    let rest := s.drop name.length
    if rest = [] || !isName name then none
    else
      let (attributes, after) ← attributesAt (rest.length + 1) false false rest
      some (.opened name attributes, after)

/-- A character that `decode` does not stop at. -/
def plainChar (c : Char) : Bool := c ≠ '&' && c ≠ '<' && c ≠ '>'

/-- The loop of `decode`: the five entities decoded, one special character after another. -/
def decodeLoop : Nat → Text → Option Text
  | 0, rest => some rest
  | fuel + 1, rest =>
    let plain := rest.takeWhile plainChar
    let tail := rest.drop plain.length
    if tail = [] then some rest
    else do
      let (entity, c) ← entities.find? fun entity => entity.1.isPrefixOf tail
      let out ← decodeLoop fuel (tail.drop entity.length)
      return plain ++ c :: out

/-- `decode`. -/
def decode (text : Text) : Option Text := decodeLoop text.length text

-- Membership of a name in the lists of tags is decided by one equality of texts.
local instance : LawfulBEq Text := inferInstance

/-- What a tag in a leaf line shows: a bare `br` one space, a span's tags nothing. -/
def shownTag : TagAt → Option Text
  | .opened name attributes =>
    if name = "br" ∧ attributes = false then some " "
    else if name ∈ spans then some []
    else none
  | .closed name => if name ∈ spans then some [] else none

/-- The loop of `inline_text`. -/
def inlineLoop : Nat → Text → Option Text
  | 0, rest => if rest = [] then some [] else none
  | fuel + 1, rest =>
    if rest = [] then some []
    else if rest.head? = some '<' then do
      let (tag, after) ← tagAt rest
      let shown ← shownTag tag
      let out ← inlineLoop fuel after
      return shown ++ out
    else do
      let text := rest.takeWhile fun c => c ≠ '<'
      let decoded ← decode text
      let out ← inlineLoop fuel (rest.drop text.length)
      return decoded ++ out

/-- `inline_text`: a leaf line's content as its visible text. -/
def inlineText (content : Text) : Option Text := inlineLoop content.length content

/-- `str::strip_suffix`. -/
def strippedEnd (ending text : Text) : Option Text :=
  if ending.isSuffixOf text then some (text.take (text.length - ending.length)) else none

/-- A leaf line of `read_line`, after its start tag. -/
def readLeaf (name rest : Text) : Option VisibleLine := do
  let tag ← LeafTag.all.find? fun t => t.name = name
  let content ← strippedEnd ">" rest
  let content ← strippedEnd name content
  let content ← strippedEnd "</" content
  let text ← inlineText content
  return { tag, text }

/-- `read_line`: nothing for a container line, the visible text of a leaf line. -/
def readLine (line : Text) : Option (Option VisibleLine) := do
  let (tag, rest) ← tagAt line
  match tag with
  | .opened name _ =>
    if name ∈ containers then if rest = [] then some none else none
    else some <$> readLeaf name rest
  | .closed name =>
    if name ∈ containers then if rest = [] then some none else none
    else none

/-- The lines of the body, read one after another. -/
def readLines : List Text → Option (List VisibleLine)
  | [] => some []
  | line :: lines => do
    let leaf ← readLine line
    let rest ← readLines lines
    return leaf.toList ++ rest

/-- `read_visible_text`. -/
def readVisibleText (candidate : Bytes) : Option VisibleText :=
  match fromUtf8 candidate with
  | .error _ => none
  | .ok text => do
    let title ← between text "<title>" "</title>"
    let title ← decode title
    let body ← between text "<body>\n" "</body>\n"
    let lines ←
      if body = [] then some []
      else do
        let body ← strippedEnd "\n" body
        readLines (body.splitOn '\n')
    return { title, lines }

/-! ## V4: the facts that are visible -/

/-- `VisibleReport`. -/
structure VisibleReport where
  supported : Bool
  name : Bool
  hours : List Bool
  phone : Bool
  deriving DecidableEq

/-- `shows_unglued` at the places after `before`: `needle` stands there with no ASCII digit
directly before or after it. -/
def showsUngluedFrom (needle : Text) (before : Option Char) : Text → Bool
  | [] => false
  | c :: rest =>
    (needle.isPrefixOf (c :: rest) && !before.any Char.isDigit &&
        !((c :: rest).drop needle.length).head?.any Char.isDigit) ||
      showsUngluedFrom needle (some c) rest

/-- `shows_unglued`. -/
def showsUnglued (text needle : Text) : Bool := showsUngluedFrom needle none text

/-- `visible_facts`. -/
def visibleFacts (text : VisibleText) (facts : ApprovedFacts) : VisibleReport where
  supported := true
  name :=
    (match text.lines.filter fun l => l.tag = .h1 with
      | [only] => decide (only.text = facts.name)
      | _ => false) && text.title = facts.name
  hours := facts.hours.map fun line =>
    text.lines.any fun l => (l.tag = .li || l.tag = .p) && l.text = line
  phone := text.lines.any fun l => showsUnglued l.text facts.phone

/-! ## V5: the email scan -/

/-- `char::is_alphanumeric` and `char::is_alphabetic`, which follow the Unicode tables. -/
structure Letters where
  alphanumeric : Char → Bool
  alphabetic : Char → Bool

/-- `local` of `has_email`. -/
def localChar (l : Letters) (c : Char) : Bool :=
  l.alphanumeric c ||
    c ∈ ['!', '#', '$', '%', '&', '\'', '*', '+', '-', '.', '/', '=', '?', '^', '_', '\x60', '\x7b',
      '|', '\x7d', '~']

/-- `domain` of `has_email`. -/
def domainChar (l : Letters) (c : Char) : Bool := l.alphanumeric c || c = '-' || c = '.'

/-- The domain after an `@` is that of an email address. -/
def emailDomain (l : Letters) (rest : Text) : Bool :=
  let run := rest.takeWhile (domainChar l)
  -- the trailing dots and hyphens dropped, innermost last
  let reversed := run.reverse.dropWhile fun c => c = '.' || c = '-'
  let last := reversed.takeWhile fun c => c ≠ '.'
  let beforeDot := reversed.drop (last.length + 1)
  '.' ∈ reversed && beforeDot ≠ [] && last.length ≥ 2 && last.all l.alphabetic

/-- `has_email` at the places after `before`. -/
def hasEmailFrom (l : Letters) (before : Option Char) : Text → Bool
  | [] => false
  | c :: rest =>
    (c = '@' && before.any (localChar l) && emailDomain l rest) || hasEmailFrom l (some c) rest

/-- `has_email`. -/
def hasEmail (l : Letters) (text : Text) : Bool := hasEmailFrom l none text

/-- `email_scan`: an email-shaped token is in the title or in a leaf's text. -/
def emailScan (l : Letters) (page : Page) : Bool :=
  (page.title :: page.leaves.map fun leaf => leaf.2.text).any (hasEmail l)

/-! ## The checks -/

/-- `Receipt`. -/
structure Receipt where
  sha256 : Bytes
  bytes : Nat
  policyHash : Bytes
  deriving DecidableEq

/-- `CheckId`. -/
inductive CheckId where
  | v0
  | v1
  | v2
  | v3
  | v4
  | v5
  deriving DecidableEq

/-- `CheckId::ALL`. -/
def CheckId.all : List CheckId := [.v0, .v1, .v2, .v3, .v4, .v5]

/-- `CheckCode`. -/
inductive CheckCode where
  | noPublication
  | publishedMismatch
  | pageNotInert (code : RefusalCode)
  | policyChanged
  | factMissing (code : FactCode)
  | nameNotVisible
  | hoursLineNotVisible (index : Nat)
  | phoneNotVisible
  | readerUnsupported
  | emailNotSupported
  deriving DecidableEq

/-- `CheckResult`. -/
inductive CheckResult where
  | pass
  | fail (code : CheckCode)
  | notRun
  deriving DecidableEq

/-- `CheckResult::of`. -/
def CheckResult.of : Option CheckCode → CheckResult
  | some code => .fail code
  | none => .pass

/-- `VisibleReport::first_error`. -/
def VisibleReport.firstError (report : VisibleReport) : Option CheckCode :=
  if !report.supported then some .readerUnsupported
  else if !report.name then some .nameNotVisible
  else
    match report.hours.findIdx? fun ok => !ok with
    | some i => some (.hoursLineNotVisible (hoursIndex i))
    | none => if !report.phone then some .phoneNotVisible else none

/-- `VerifierReport`. -/
structure VerifierReport where
  checks : CheckId → CheckResult
  factsReport : Option FactsReport
  visible : Option VisibleReport

/-- `VerifierReport::passed`. -/
def VerifierReport.passed (report : VerifierReport) : Bool :=
  CheckId.all.all fun id => report.checks id = .pass

/-- `failed` of `gates`: the checks before this one passed, those after it did not run. -/
def failedAt (id : CheckId) (code : CheckCode) : VerifierReport where
  checks other :=
    if other = id then .fail code
    else if CheckId.all.idxOf other < CheckId.all.idxOf id then .pass
    else .notRun
  factsReport := none
  visible := none

/-- `gates`: V0 to V2 in order; the page the kernel accepted, or the report of the first failing
gate. -/
def gates (d : Digests) (candidate : Bytes) (receipt : Option Receipt) :
    Except VerifierReport Page :=
  match receipt with
  | none => .error (failedAt .v0 .noPublication)
  | some receipt =>
    if d.sha256 candidate ≠ receipt.sha256 ∨ min candidate.length (2 ^ 64 - 1) ≠ receipt.bytes then
      .error (failedAt .v1 .publishedMismatch)
    else
      match check candidate with
      | .error refusal => .error (failedAt .v2 (.pageNotInert refusal.code))
      | .ok page =>
        if d.policyHash ≠ receipt.policyHash then .error (failedAt .v2 .policyChanged)
        else .ok page

/-- V4's findings on a candidate: the second reader, over the bytes themselves. -/
def visibleReport (candidate : Bytes) (facts : ApprovedFacts) : VisibleReport :=
  match readVisibleText candidate with
  | some text => visibleFacts text facts
  | none =>
    { supported := false, name := false, hours := facts.hours.map fun _ => false, phone := false }

/-- `verify_page`: `run` without test seams. -/
def verifyPage (d : Digests) (l : Letters) (candidate : Bytes) (facts : ApprovedFacts)
    (receipt : Option Receipt) : VerifierReport :=
  match gates d candidate receipt with
  | .error report => report
  | .ok page =>
    let v3 := InertPage.factsReport page facts
    let v4 := visibleReport candidate facts
    { checks := fun id =>
        match id with
        | .v0 | .v1 | .v2 => .pass
        | .v3 =>
          match v3.firstError with
          | .error code => .fail (.factMissing code)
          | .ok () => .pass
        | .v4 => .of v4.firstError
        | .v5 => .of (if emailScan l page then some .emailNotSupported else none)
      factsReport := some v3
      visible := some v4 }

end NexusOs.Verifier
