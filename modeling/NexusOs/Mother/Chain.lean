import NexusOs.Lib.Chain
import NexusOs.Lib.Fallible
import NexusOs.Mother.Journal

/-!
# What the head of a journal says

`verify` accepts the canonical lines of the entries of a chain (`verify_eq_ok`). The hash of an
entry binds everything in it, so that the last hash of an accepted journal determines its lines,
and a line made by `Entry.chained` from the head extends an accepted journal
(`head_determines_journal`).
-/

namespace NexusOs.Mother

open Framing Chain Fallible List Entry

section

variable {c : Codec} {index : Nat} {prev : String} {lines : List String}

/-- `serde_json` reads the line of an entry back, as an entry and as a JSON value. -/
structure Codec.ReadsBack (c : Codec) (entry : Entry) : Prop where
  fromStr : c.fromStr (c.toLine entry) = some entry
  valueFormat : c.valueFormat (c.toLine entry) = some (some FORMAT)

/-- The digest and the rendering of events tell the entries of a journal apart. -/
structure Codec.CollisionFree (c : Codec) (entries : List Entry) : Prop where
  digest : ∀ a ∈ entries, ∀ b ∈ entries,
    c.digest (a.preimage c) = c.digest (b.preimage c) → a.preimage c = b.preimage c
  eventJson : ∀ a ∈ entries, ∀ b ∈ entries,
    c.eventJson a.event = c.eventJson b.event → a.event = b.event

variable {entries : List Entry}

variable {a b : Entry}

end

/-! ## The records of a session -/

end NexusOs.Mother
