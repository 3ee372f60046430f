import Mathlib

/-!
# The codes of the inert page check

`RefusalCode` (`inert_page/mod.rs`) and `FactCode` (`inert_page/facts.rs`), the answers of the page
check and the facts check. The order of the refusal codes is their reporting priority.
-/

namespace NexusOs.InertPage

/-- `RefusalCode`: why a candidate was refused, in reporting order. -/
inductive RefusalCode where
  | tooLarge
  | notUtf8
  | byteOrderMark
  | carriageReturn
  | noFinalNewline
  | controlChar
  | invisibleChar
  | charNotAllowed
  | scriptElement
  | styleElement
  | elementNotAllowed
  | tagCase
  | eventHandler
  | styleAttribute
  | urlAttribute
  | attributeNotAllowed
  | comment
  | markupDeclaration
  | processingInstruction
  | entityNotAllowed
  | remoteReference
  | cssUrl
  | cssImport
  | javascriptScheme
  | dataScheme
  | prologueMismatch
  | langInvalid
  | titleInvalid
  | cssMismatch
  | contentModel
  | tagUnclosed
  | tagMisnested
  | voidSyntax
  | attributeSyntax
  | classNotAllowed
  | idInvalid
  | idDuplicate
  | emptyElement
  | textSpacing
  | depthExceeded
  | tooManyElements
  | wordTooLong
  | trailingContent
  | notCanonical
  deriving DecidableEq

namespace RefusalCode

/-- `RefusalCode::CODES`: every code, in reporting order. -/
def codes : List RefusalCode :=
  [.tooLarge, .notUtf8, .byteOrderMark, .carriageReturn, .noFinalNewline, .controlChar,
    .invisibleChar, .charNotAllowed, .scriptElement, .styleElement, .elementNotAllowed, .tagCase,
    .eventHandler, .styleAttribute, .urlAttribute, .attributeNotAllowed, .comment,
    .markupDeclaration, .processingInstruction, .entityNotAllowed, .remoteReference, .cssUrl,
    .cssImport, .javascriptScheme, .dataScheme, .prologueMismatch, .langInvalid, .titleInvalid,
    .cssMismatch, .contentModel, .tagUnclosed, .tagMisnested, .voidSyntax, .attributeSyntax,
    .classNotAllowed, .idInvalid, .idDuplicate, .emptyElement, .textSpacing, .depthExceeded,
    .tooManyElements, .wordTooLong, .trailingContent, .notCanonical]

/-- Every code is listed. -/
theorem mem_codes (code : RefusalCode) : code ∈ codes := by cases code <;> decide

end RefusalCode

/-- `FactCode`: why facts could not be built, or which fact a page lacks. -/
inductive FactCode where
  | factsInvalid
  | phoneFormat
  | factPhoneLike
  | nameNotHeading
  | nameNotTitle
  | hoursLineMissing (index : Nat)
  | phoneMissing
  | foreignNumber
  deriving DecidableEq

end NexusOs.InertPage
