import NexusOs.InertPage.Policy

/-!
# The lexical scan

`inert_page/scan.rs` and `LexicalFindings` of `inert_page/mod.rs`: S1, bytes and characters, and S2,
the lexical findings of the whole input. A place in the input is the bytes from it on; its offset is
the number of bytes before.
-/

namespace NexusOs.InertPage

open Framing Utf8

/-! ## Findings -/

/-- `LexicalFindings`: the first byte offset of each code found. -/
structure LexicalFindings where
  firstOffset : RefusalCode → Option Nat

namespace LexicalFindings

/-- `LexicalFindings::default`. -/
def none : LexicalFindings where
  firstOffset _ := .none

/-- `LexicalFindings::note`. -/
def note (f : LexicalFindings) (code : RefusalCode) (offset : Nat) : LexicalFindings where
  firstOffset c :=
    if c = code then
      let offset := min offset (2 ^ 32 - 1)
      match f.firstOffset c with
      | some first => if offset < first then some offset else some first
      | .none => some offset
    else f.firstOffset c

/-- `LexicalFindings::first`: the finding that is reported. -/
def first (f : LexicalFindings) : Option (RefusalCode × Nat) :=
  RefusalCode.codes.findSome? fun c => (f.firstOffset c).map fun offset => (c, offset)

end LexicalFindings

/-! ## S1: bytes and characters -/

/-- The code of a character of `characters`, if it is not allowed at this offset. -/
def characterCode (c : Char) (offset : Nat) : Option RefusalCode :=
  if c = '\n' then none
  else if c = '\r' then some .carriageReturn
  else if c.toNat = 0xFEFF ∧ offset = 0 then some .byteOrderMark
  else if inRanges POLICY_V1.controlRanges c then some .controlChar
  else if inRanges POLICY_V1.invisibleRanges c then some .invisibleChar
  else if !inRanges POLICY_V1.profileRanges c then some .charNotAllowed
  else none

/-- `characters`, over the pieces from an offset on. -/
def characters : Nat → List Piece → LexicalFindings → LexicalFindings
  | _, [], f => f
  | offset, .char c :: rest, f =>
    characters (offset + c.utf8Size) rest <|
      match characterCode c offset with
      | some code => f.note code offset
      | none => f
  | offset, .invalid length :: rest, f => characters (offset + length) rest (f.note .notUtf8 offset)

/-! ## S2: tags and attributes -/

/-- The byte of an ASCII character. -/
def byte (c : Char) : UInt8 := UInt8.ofNat c.toNat

/-- `is_space`: HTML's tag whitespace. -/
def isSpace (b : UInt8) : Bool :=
  b = byte '\t' || b = byte '\n' || b = 0x0C || b = byte '\r' || b = byte ' '

/-- `u8::is_ascii_alphabetic`. -/
def isAlphabetic (b : UInt8) : Bool := byte 'a' ≤ b && b ≤ byte 'z' || byte 'A' ≤ b && b ≤ byte 'Z'

/-- `u8::to_ascii_lowercase`. -/
def lowercase (b : UInt8) : UInt8 := if byte 'A' ≤ b && b ≤ byte 'Z' then b + 32 else b

/-- `allowed_tag`. -/
def allowedTag (lower : Bytes) : Bool :=
  (POLICY_V1.bodyTags.map Tag.name ++ POLICY_V1.headTags).any fun name => encode name = lower

/-- `attribute_name`. -/
def attributeName (raw : Bytes) (offset : Nat) (f : LexicalFindings) : LexicalFindings :=
  let lower := raw.map lowercase
  if (encode POLICY_V1.eventStart).isPrefixOf lower then f.note .eventHandler offset
  else if lower = encode POLICY_V1.styleAttribute then f.note .styleAttribute offset
  else if POLICY_V1.urlAttributes.any fun u => lower = encode u then
    f.note .urlAttribute offset
  else if !(POLICY_V1.bodyAttributes ++ POLICY_V1.prologueAttributes).any
      fun a => raw = encode a then
    f.note .attributeNotAllowed offset
  else f

/-- `attributes`, of an input of `n` bytes, after the tag's name or an attribute: the bytes after
the tag. -/
def scanAttributes (n : Nat) : Nat → Bytes → LexicalFindings → Bytes × LexicalFindings
  | 0, rest, f => (rest, f)
  | fuel + 1, rest, f =>
    match rest.dropWhile fun b => isSpace b || b = byte '/' with
    | [] => ([], f)
    | first :: rest =>
      if first = byte '>' then (rest, f)
      else
        -- The first character belongs to the name even if it is `=`.
        let inName b := !isSpace b && !(b = byte '/' || b = byte '>' || b = byte '=')
        let f := attributeName (first :: rest.takeWhile inName) (n - (rest.length + 1)) f
        match (rest.dropWhile inName).dropWhile isSpace with
        | [] => scanAttributes n fuel [] f
        | b :: rest =>
          if b = byte '=' then
            match rest.dropWhile isSpace with
            | [] => ([], f)
            | value :: rest =>
              if value = byte '"' || value = byte '\'' then
                scanAttributes n fuel ((rest.dropWhile fun b => b ≠ value).drop 1) f
              else if value = byte '>' then (rest, f)
              else
                scanAttributes n fuel
                  ((value :: rest).dropWhile fun b => !isSpace b && b ≠ byte '>') f
          else scanAttributes n fuel (b :: rest) f

/-- The bytes from the tag's name on, after its `<`, and whether it is an end tag; none if no tag is
there. -/
def tagName? : Bytes → Option (Bool × Bytes)
  | c :: rest =>
    if isAlphabetic c then some (false, c :: rest)
    else if c = byte '/' then
      match rest with
      | c :: _ => if isAlphabetic c then some (true, rest) else none
      | [] => none
    else none
  | [] => none

/-- `tags`, of an input of `n` bytes, after so many `style` start tags. -/
def tags (n : Nat) : Nat → Nat → Bytes → LexicalFindings → LexicalFindings
  | 0, _, _, f => f
  | _, _, [], f => f
  | fuel + 1, styles, b :: rest, f =>
    if b ≠ byte '<' then tags n fuel styles rest f
    else
      match tagName? rest with
      | none => tags n fuel styles rest f
      | some (endTag, named) =>
        let offset := n - (rest.length + 1)
        let inName b := !isSpace b && b ≠ byte '/' && b ≠ byte '>'
        let raw := named.takeWhile inName
        let lower := raw.map lowercase
        let style := allowedTag lower && !endTag && lower = encode POLICY_V1.styleTag
        let styles := if style then styles + 1 else styles
        let f :=
          if lower = encode POLICY_V1.scriptTag then f.note .scriptElement offset
          else if !allowedTag lower then f.note .elementNotAllowed offset
          else
            let f := if style && styles > 1 then f.note .styleElement offset else f
            if raw ≠ lower then f.note .tagCase offset else f
        let (rest, f) := scanAttributes n named.length (named.dropWhile inName) f
        tags n fuel styles rest f

/-! ## S2: declarations, entities and needles -/

/-- `eq_ignore_ascii_case` at the front of some bytes. -/
def startsIgnoringCase (needle rest : Bytes) : Bool :=
  needle.length ≤ rest.length && (rest.take needle.length).map lowercase = needle.map lowercase

/-- `anywhere`: S2 at one offset. -/
def anywhere (offset : Nat) (rest : Bytes) (f : LexicalFindings) : LexicalFindings :=
  let f :=
    match POLICY_V1.declarations.find? fun d => (encode d.1).isPrefixOf rest with
    | some (_, code) =>
      -- The doctype is the one declaration allowed, at offset 0.
      if code = .markupDeclaration ∧ offset = 0 then f else f.note code offset
    | none => f
  let f :=
    if rest.head? = some (byte '&') &&
        !POLICY_V1.entities.any fun e => (encode e.2).isPrefixOf rest then
      f.note .entityNotAllowed offset
    else f
  POLICY_V1.needles.foldl
    (fun f needle =>
      if startsIgnoringCase (encode needle.1) rest then f.note needle.2 offset else f) f

/-- `anywhere` at every offset from this one on. -/
def anywhereFrom : Nat → Bytes → LexicalFindings → LexicalFindings
  | _, [], f => f
  | offset, b :: rest, f => anywhereFrom (offset + 1) rest (anywhere offset (b :: rest) f)

/-- `scan`: the findings of the whole input. -/
def scan (input : Bytes) : LexicalFindings :=
  if input.length > POLICY_V1.maxPageBytes then
    LexicalFindings.none.note .tooLarge POLICY_V1.maxPageBytes
  else
    let f := characters 0 (pieces input) .none
    let f := if input.getLast? ≠ some (byte '\n') then f.note .noFinalNewline input.length else f
    let f := tags input.length input.length 0 input f
    anywhereFrom 0 input f

end NexusOs.InertPage
