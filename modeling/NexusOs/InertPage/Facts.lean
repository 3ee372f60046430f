import NexusOs.InertPage.Tree

/-!
# The approved facts and the facts check

`inert_page/facts.rs`: the facts the Owner approved for a page, built only within their rules,
and the facts check FC-1 to FC-4. A place in a text is the number of characters before it.
-/

namespace NexusOs.InertPage

open Framing Utf8

/-- `str::to_ascii_lowercase`. -/
def asciiLowercase (text : Text) : Text := text.map Char.toLower

/-- `value_ok`. -/
def valueOk (v : Text) : Bool :=
  POLICY_V1.factsValueMinChars ≤ v.length && v.length ≤ POLICY_V1.factsValueMaxChars &&
    (v.all fun c =>
      !inRanges POLICY_V1.controlRanges c && !inRanges POLICY_V1.invisibleRanges c &&
        inRanges POLICY_V1.profileRanges c) &&
    v.head? ≠ some ' ' && v.getLast? ≠ some ' ' && !decide ([' ', ' '] <:+: v) &&
    !POLICY_V1.needles.any fun needle => decide (needle.1 <:+: asciiLowercase v)

/-- The loop of `phone_shape_ok` from the character at `k` on: the digits, or none if a character
may not stand where it does. -/
def phoneDigits? : Nat → Nat → Nat → Text → Option Nat
  | _, _, digits, [] => some digits
  | k, run, digits, c :: rest =>
    if c ∉ POLICY_V1.phoneChars ∨ c = '+' ∧ k > 0 then none
    else if c.isDigit then phoneDigits? (k + 1) 0 (digits + 1) rest
    else if run + 1 > POLICY_V1.phoneMaxNonDigitRun then none
    else phoneDigits? (k + 1) (run + 1) digits rest

/-- `phone_shape_ok`. -/
def phoneShapeOk (phone : Text) : Bool :=
  match phoneDigits? 0 0 0 phone with
  | none => false
  | some digits =>
    (phone.head?.any fun c => c = '+' || c = '(' || c.isDigit) &&
      (phone.getLast?.any fun c => c.isDigit) &&
      POLICY_V1.phoneMinDigits ≤ digits && digits ≤ POLICY_V1.phoneMaxDigits

/-- `flush` of `phone_like_tokens`. -/
def flushDigits (found : List Text) (digits : Text) : List Text :=
  if digits.length ≥ POLICY_V1.fc4Threshold then found ++ [digits] else found

/-- The loop of `phone_like_tokens`: the tokens found, and the digits of the current one. -/
def tokensLoop : List Text → Text → Text → List Text
  | found, digits, [] => flushDigits found digits
  | found, digits, c :: rest =>
    if c.isDigit then tokensLoop found (digits ++ [c]) rest
    else if c ∉ POLICY_V1.fc4Separators then tokensLoop (flushDigits found digits) [] rest
    else tokensLoop found digits rest

/-- `phone_like_tokens`: the digits of each phone-like token, in order. -/
def phoneLikeTokens (text : Text) : List Text := tokensLoop [] [] text

/-- The checks of `ApprovedFacts::new`, in order. -/
def factsError (name : Text) (hours : List Text) (phone : Text) : Option FactCode :=
  if !(name :: hours ++ [phone]).all valueOk ∨ name.length > POLICY_V1.factsNameMaxChars ∨
      ¬(POLICY_V1.factsHoursMinLines ≤ hours.length ∧
        hours.length ≤ POLICY_V1.factsHoursMaxLines) then
    some .factsInvalid
  else if !phoneShapeOk phone then some .phoneFormat
  else if (name :: hours).any fun v => phoneLikeTokens v ≠ [] then some .factPhoneLike
  else none

/-- `ApprovedFacts`: immutable once built, so it carries that it passed its checks. -/
structure ApprovedFacts where
  name : Text
  hours : List Text
  phone : Text
  valid : factsError name hours phone = none

/-- `put`: the length as a u64, then the bytes. -/
def put (b : Bytes) : Bytes := beBytes 8 b.length ++ b

/-- `FACTS_DOMAIN`. -/
def factsDomain : Text := "nexus.inert_page.facts.v1"

/-- `ApprovedFacts::hash`, under a digest. -/
def ApprovedFacts.hash (sha256 : Bytes → Bytes) (facts : ApprovedFacts) : Bytes :=
  sha256 (put (encode factsDomain) ++ put (encode facts.name) ++
    beBytes 4 facts.hours.length ++ facts.hours.flatMap (fun line => put (encode line)) ++
    put (encode facts.phone))

/-- The loop of `flatten` over the stack of open spans, innermost first, each with its number: the
text so far, and the range of each span. -/
def flattenLoop : List (Inlines × Option Nat) → Text → List (Nat × Nat) → Text × List (Nat × Nat)
  | [], text, spans => (text, spans)
  | (.nil, none) :: stack, text, spans => flattenLoop stack text spans
  | (.nil, some k) :: stack, text, spans =>
    flattenLoop stack text (spans.modify k fun range => (range.1, text.length))
  | (.text t rest, top) :: stack, text, spans =>
    flattenLoop ((rest, top) :: stack) (text ++ t) spans
  | (.br rest, top) :: stack, text, spans =>
    flattenLoop ((rest, top) :: stack) (text ++ [' ']) spans
  | (.span _ _ inlines rest, top) :: stack, text, spans =>
    flattenLoop ((inlines, some spans.length) :: (rest, top) :: stack) text
      (spans ++ [(text.length, text.length)])
  termination_by stack => (stack.map fun frame => frame.1.weight).sum
  decreasing_by all_goals simp only [List.map_cons, List.sum_cons, Inlines.weight]; omega

/-- `flatten`: a leaf's element text, and the range of each span in it. -/
def flatten (l : Leaf) : Text × List (Nat × Nat) := flattenLoop [(l.inlines, none)] [] []

/-- `Leaf::text`. -/
def Leaf.text (l : Leaf) : Text := (flatten l).1

/-- `LeafText`. -/
structure LeafText where
  tag : Tag
  text : Text
  spans : List (Nat × Nat)

/-- `push` of `leaf_texts`. -/
def leafText (tag : Tag) (l : Leaf) : LeafText where
  tag
  text := (flatten l).1
  spans := (flatten l).2

/-- The leaves of a block, with their tags, in document order. -/
def Block.leaves : Block → List (Tag × Leaf)
  | .leaf tag l => [(tag.tag, l)]
  | .list _ l => l.items.map fun item => (.li, item)

/-- The leaves of an optional region. -/
def regionLeaves (r : Option Region) : List (Tag × Leaf) :=
  match r with
  | some r => r.blocks.flatMap Block.leaves
  | none => []

/-- The leaves of an item of `main`. -/
def MainItem.leaves : MainItem → List (Tag × Leaf)
  | .sect s => s.blocks.flatMap Block.leaves
  | .block b => b.leaves

/-- Every leaf of a page, with its tag, in document order. -/
def Page.leaves (page : Page) : List (Tag × Leaf) :=
  regionLeaves page.header ++ page.main.items.flatMap MainItem.leaves ++ regionLeaves page.footer

/-- `leaf_texts`. -/
def leafTexts (page : Page) : List LeafText := page.leaves.map fun leaf => leafText leaf.1 leaf.2

/-- `FactsReport`. -/
structure FactsReport where
  nameHeading : Bool
  nameTitle : Bool
  hours : List Bool
  phone : Bool
  noForeignNumber : Bool

/-- The index of an hours line as a u8, saturated. -/
def hoursIndex (i : Nat) : Nat := min i 255

/-- `FactsReport::first_error`. -/
def FactsReport.firstError (report : FactsReport) : Except FactCode Unit :=
  if !report.nameHeading then .error .nameNotHeading
  else if !report.nameTitle then .error .nameNotTitle
  else
    match report.hours.findIdx? fun ok => !ok with
    | some i => .error (.hoursLineMissing (hoursIndex i))
    | none =>
      if !report.phone then .error .phoneMissing
      else if !report.noForeignNumber then .error .foreignNumber
      else .ok ()

/-- `&text[a..b]`. -/
def slice (text : Text) (range : Nat × Nat) : Text := (text.drop range.1).take (range.2 - range.1)

/-- `facts_report`. -/
def factsReport (page : Page) (facts : ApprovedFacts) : FactsReport :=
  let leaves := leafTexts page
  let digits := facts.phone.filter Char.isDigit
  { nameHeading :=
      match leaves.filter fun l => l.tag = .h1 with
      | [only] => only.text = facts.name
      | _ => false
    nameTitle := page.title = facts.name
    hours := facts.hours.map fun line =>
      leaves.any fun l => (l.tag = .li || l.tag = .p) && l.text = line
    phone := leaves.any fun l =>
      l.text = facts.phone || l.spans.any fun range => slice l.text range = facts.phone
    noForeignNumber := (page.title :: leaves.map LeafText.text).all fun text =>
      (phoneLikeTokens text).all fun token => token = digits }

/-- `check_facts`. -/
def checkFacts (page : Page) (facts : ApprovedFacts) : Except FactCode Unit :=
  (factsReport page facts).firstError

end NexusOs.InertPage
