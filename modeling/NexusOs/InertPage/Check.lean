import NexusOs.InertPage.Parse
import NexusOs.InertPage.Scan

/-!
# The inert page check

`check` of `inert_page/mod.rs`, S1 to S4, with its refusals, and `Page::new` of
`inert_page/tree.rs`.
-/

namespace NexusOs.InertPage

open Framing Utf8

/-- `Refusal`: a code and where. -/
structure Refusal where
  code : RefusalCode
  offset : Nat
  line : Nat
  column : Nat
  deriving DecidableEq

/-- `Refusal::at`: the refusal `code` at byte `offset` of `input`. -/
def Refusal.atOffset (code : RefusalCode) (input : Bytes) (offset : Nat) : Refusal :=
  let before := input.take offset
  let line := 1 + before.count (byte '\n')
  let lineStart := before.reverse.takeWhile fun b => b ≠ byte '\n'
  let column := 1 + lineStart.countP fun b => !isContinuation b
  let num n := min n (2 ^ 32 - 1)
  { code, offset := num offset, line := num line, column := num column }

/-- The bytes two byte strings begin with in common. -/
def sameBytes : Bytes → Bytes → Nat
  | a :: as, b :: bs => if a = b then sameBytes as bs + 1 else 0
  | _, _ => 0

/-- `check`: S1 to S4. -/
def check (candidate : Bytes) : Except Refusal Page :=
  match (scan candidate).first with
  | some (code, offset) => .error (.atOffset code candidate offset)
  | none =>
    match fromUtf8 candidate with
    | .error valid => .error (.atOffset .notUtf8 candidate valid)
    | .ok text =>
      match parseDocument text with
      | .error (code, offset) => .error (.atOffset code candidate offset)
      | .ok page =>
        if serialize page ≠ candidate then
          .error (.atOffset .notCanonical candidate (sameBytes (serialize page) candidate))
        else .ok page

/-- `Page::new`: a page from its parts under exactly the checks of `check`. -/
def Page.new (lang title : Text) (header : Option Region) (main : Main)
    (footer : Option Region) : Except Refusal Page :=
  let page : Page := { lang, title, header, main, footer }
  let bytes := writePage page POLICY_V1.maxPageBytes
  match check bytes with
  | .error refusal => .error refusal
  | .ok parsed =>
    -- The bytes are canonical, but the tree may not be the one they parse to.
    if parsed ≠ page then .error (.atOffset .notCanonical bytes 0) else .ok page

end NexusOs.InertPage
