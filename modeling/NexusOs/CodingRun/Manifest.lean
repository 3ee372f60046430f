import NexusOs.Lib.Table
import NexusOs.Lib.Utf8

/-!
# Paths and manifests of a coding run

`RelPath` of `coding_run/scope.rs` and `ManifestEntry` of `coding_run/manifest.rs`. A path has
components, none of them empty or with a slash, as its construction checks. A `BTreeMap` by path is
a table, sorted where it is iterated.
-/

namespace NexusOs.CodingRun

open Framing Utf8

/-- `RelPath`. -/
structure RelPath where
  components : List Text
  nonempty : components ≠ []
  plain : ∀ part ∈ components, part ≠ [] ∧ '/' ∉ part
  deriving DecidableEq

/-- `RelPath::as_string`. -/
def RelPath.asString (path : RelPath) : Text := ['/'].intercalate path.components

/-- The order of the paths: by components. -/
def RelPath.le (a b : RelPath) : Bool := decide (¬b.components < a.components)

/-- `ManifestEntry`. -/
structure ManifestEntry where
  size : Nat
  sha256 : Bytes
  deriving DecidableEq

end NexusOs.CodingRun
