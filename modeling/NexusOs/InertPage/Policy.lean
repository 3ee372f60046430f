import NexusOs.Lib.Utf8
import NexusOs.InertPage.Codes

/-!
# The declared policy of the inert page check

`inert_page/policy.rs`: the parameters of `POLICY_V1` that the check reads, and the tags and
classes of `inert_page/tree.rs` that they name. Texts are lists of characters.
-/

namespace NexusOs.InertPage

open Utf8 List

/-- `Tag`: the 16 body tags. -/
inductive Tag where
  | header
  | main
  | footer
  | «section»
  | h1
  | h2
  | h3
  | p
  | address
  | ul
  | ol
  | li
  | strong
  | em
  | small
  | br
  deriving DecidableEq

/-- `Tag::name`. -/
def Tag.name : Tag → Text
  | .header => "header"
  | .main => "main"
  | .footer => "footer"
  | Tag.section => "section"
  | .h1 => "h1"
  | .h2 => "h2"
  | .h3 => "h3"
  | .p => "p"
  | .address => "address"
  | .ul => "ul"
  | .ol => "ol"
  | .li => "li"
  | .strong => "strong"
  | .em => "em"
  | .small => "small"
  | .br => "br"

/-- `Class`: the class tokens of Mother's stylesheet. -/
inductive Class where
  | lead
  | muted
  | center
  | note
  | plain
  deriving DecidableEq

/-- `Class::name`. -/
def Class.name : Class → Text
  | .lead => "lead"
  | .muted => "muted"
  | .center => "center"
  | .note => "note"
  | .plain => "plain"

namespace POLICY_V1

def maxPageBytes : Nat := 65536

def controlRanges : List (Nat × Nat) := [(0x00, 0x1F), (0x7F, 0x9F)]

def invisibleRanges : List (Nat × Nat) :=
  [(0xAD, 0xAD), (0x34F, 0x34F), (0x61C, 0x61C), (0x115F, 0x1160), (0x180E, 0x180E),
    (0x200B, 0x200F), (0x2028, 0x202E), (0x2060, 0x206F), (0x3164, 0x3164), (0xFE00, 0xFE0F),
    (0xFEFF, 0xFEFF), (0xFFA0, 0xFFA0), (0xFFF9, 0xFFFB), (0xE0000, 0xE007F),
    (0xE0100, 0xE01EF)]

def profileRanges : List (Nat × Nat) :=
  [(0x20, 0x7E), (0xA1, 0xAC), (0xAE, 0xFF), (0x100, 0x17F), (0x2012, 0x2014),
    (0x2018, 0x201F), (0x2022, 0x2022), (0x2026, 0x2026), (0x20AC, 0x20AC), (0x2122, 0x2122)]

def scriptTag : Text := "script"

def styleTag : Text := "style"

def headTags : List Text := ["html", "head", "body", "meta", "title", "style"]

def bodyTags : List Tag :=
  [.header, .main, .footer, Tag.section, .h1, .h2, .h3, .p, .address, .ul, .ol, .li, .strong,
    .em, .small, .br]

def eventStart : Text := "on"

def styleAttribute : Text := "style"

def urlAttributes : List Text :=
  ["href", "src", "srcset", "action", "formaction",
    "poster", "background", "cite", "data", "ping",
    "manifest", "xlink:href"]

def prologueAttributes : List Text := ["lang", "charset", "name", "content"]

/-- The first of `body_attributes`. -/
def className : Text := "class"

/-- The second of `body_attributes`. -/
def idName : Text := "id"

def bodyAttributes : List Text := [className, idName]

def declarations : List (Text × RefusalCode) :=
  [("<!--", .comment), ("<!", .markupDeclaration), ("<?", .processingInstruction)]

def entities : List (Char × Text) :=
  [('&', "&amp;"), ('<', "&lt;"), ('>', "&gt;"), ('"', "&quot;"), ('\'', "&#39;")]

def needles : List (Text × RefusalCode) :=
  [("://", .remoteReference), ("url(", .cssUrl), ("@import", .cssImport),
    ("javascript:", .javascriptScheme), ("data:", .dataScheme)]

/-- The first of `head_segments`: up to the language. -/
def head : Text := "<!doctype html>\n<html lang=\""

/-- The second of `head_segments`: from the language to the title. -/
def afterLang : Text :=
  "\">\n<head>\n<meta charset=\"utf-8\">\n" ++
    "<meta name=\"viewport\" content=\"width=device-width, initial-scale=1\">\n<title>"

/-- The third of `head_segments`: from the title to the stylesheet. -/
def afterTitle : Text := "</title>\n<style>\n"

/-- The fourth of `head_segments`: from the stylesheet to the body. -/
def afterCss : Text := "</style>\n</head>\n<body>\n"

def epilogue : Text := "</body>\n</html>\n"

/-- `MOTHER_CSS`: Mother's fixed stylesheet, inline in every page, line by line. -/
@[irreducible]
def css : Text :=
  List.flatMap String.toList
    ["*\x7bbox-sizing:border-box\x7d\n",
    "html\x7b-webkit-text-size-adjust:100%;text-size-adjust:100%\x7d\n",
    "body\x7bmargin:0;font-family:system-ui,sans-serif;font-size:1rem;line-height:1.5",
    ";color:#1d1b18;background:#fdfaf5\x7d\n",
    "header,main,footer\x7bmax-width:60rem;margin:0 auto;padding:1rem\x7d\n",
    "header\x7bborder-bottom:1px solid #e4ddd2\x7d\n",
    "footer\x7bborder-top:1px solid #e4ddd2;color:#5b554d\x7d\n",
    "section\x7bmargin:0 0 1.5rem\x7d\n",
    "h1,h2,h3\x7bline-height:1.2;margin:0 0 .5rem\x7d\n",
    "h1\x7bfont-size:2rem\x7d\n",
    "h2\x7bfont-size:1.5rem\x7d\n",
    "h3\x7bfont-size:1.25rem\x7d\n",
    "p,ul,ol,address\x7bmargin:0 0 1rem\x7d\n",
    "ul,ol\x7bpadding-left:1.25rem\x7d\n",
    "address\x7bfont-style:normal\x7d\n",
    "h1,h2,h3,p,li,address\x7boverflow-wrap:anywhere\x7d\n",
    ".lead\x7bfont-size:1.125rem\x7d\n",
    ".muted\x7bcolor:#5b554d\x7d\n",
    ".center\x7btext-align:center\x7d\n",
    ".note\x7bpadding:.75rem;border:1px solid #e4ddd2;border-radius:.25rem\x7d\n",
    ".plain\x7blist-style:none;padding-left:0\x7d\n"]

theorem css_plain : (css.all fun c => c ≠ '<' && c ≠ '&') = true := by
  simp only [css, flatMap_cons]
  -- the literals as lists of characters, for the evaluation
  repeat rewrite [String.toList_ofList]
  decide +kernel

theorem lt_not_mem_css : '<' ∉ css := fun h => by simpa using all_eq_true.mp css_plain _ h

theorem amp_not_mem_css : '&' ∉ css := fun h => by simpa using all_eq_true.mp css_plain _ h

def classes : List Class := [.lead, .muted, .center, .note, .plain]

def maxDepth : Nat := 8

def maxElements : Nat := 400

def maxWordChars : Nat := 40

def maxTitleChars : Nat := 80

def maxIdChars : Nat := 32

def factsNameMaxChars : Nat := 80

def factsValueMinChars : Nat := 1

def factsValueMaxChars : Nat := 120

def factsHoursMinLines : Nat := 1

def factsHoursMaxLines : Nat := 7

def phoneMinDigits : Nat := 7

def phoneMaxDigits : Nat := 15

def phoneChars : List Char :=
  ['0', '1', '2', '3', '4', '5', '6', '7', '8', '9', ' ', '-', '.', '(', ')', '+']

def phoneMaxNonDigitRun : Nat := 2

def fc4Threshold : Nat := 7

def fc4Separators : List Char := [' ', '-', '.', '(', ')', '/', '+', '\u2012', '\u2013', '\u2014']

end POLICY_V1

/-- `in_ranges`. -/
def inRanges (ranges : List (Nat × Nat)) (c : Char) : Bool :=
  ranges.any fun range => range.1 ≤ c.toNat && c.toNat ≤ range.2

end NexusOs.InertPage
