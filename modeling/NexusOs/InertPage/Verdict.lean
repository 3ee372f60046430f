import NexusOs.InertPage.Check
import NexusOs.InertPage.Facts

/-!
# The page verdict

`inert_page/verdict.rs`: which candidate bytes were checked, under which policy and approved facts,
and the outcome.
-/

namespace NexusOs.InertPage

open Framing Utf8

/-- The digests the page check is built with: SHA-256, and the hash of `POLICY_V1`. -/
structure Digests where
  sha256 : Bytes → Bytes
  policyHash : Bytes

/-- `FactsMarker`. -/
inductive FactsMarker where
  | noFacts
  | facts (hash : Bytes)
  deriving DecidableEq

/-- `FactsMarker::of`. -/
def FactsMarker.of (d : Digests) : Option ApprovedFacts → FactsMarker
  | some f => .facts (f.hash d.sha256)
  | none => .noFacts

/-- `PageOutcome`. -/
inductive PageOutcome where
  | passed
  | refused (code : RefusalCode)
  | factMissing (code : FactCode)
  deriving DecidableEq

/-- `PageVerdict`. -/
structure PageVerdict where
  candidateSha256 : Bytes
  policyHash : Bytes
  facts : FactsMarker
  outcome : PageOutcome
  hoursLines : Nat
  deriving DecidableEq

namespace PageVerdict

/-- `PageVerdict::evaluate`. -/
def evaluate (d : Digests) (candidate : Bytes) (facts : Option ApprovedFacts) : PageVerdict where
  candidateSha256 := d.sha256 candidate
  outcome :=
    match check candidate with
    | .error refusal => .refused refusal.code
    | .ok page =>
      match facts.map (checkFacts page) with
      | some (.error code) => .factMissing code
      | some (.ok ()) | none => .passed
  policyHash := d.policyHash
  facts := FactsMarker.of d facts
  hoursLines :=
    match facts with
    | some f => min f.hours.length 255
    | none => 0

/-- `PageVerdict::passed`. -/
def passed (v : PageVerdict) : Bool := v.outcome = .passed

end PageVerdict

end NexusOs.InertPage
