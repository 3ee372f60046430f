import NexusOs.Lib.Log
import NexusOs.Ledger.CellInvariant

/-!
# The honest ledger

A ledger as the storage keeps it: rows in order, numbered from 1. `honest` are the books of a
storage that may fail or answer that it is corrupt at any time, but whose answers are
otherwise those of the ledger. The reads are those of the simulated ledger in
`ledger/protocol/model_tests.rs`, over any records. The digest of a set of explanations is any
function of them.

Rows of other families have identities of their own, so that identity is looked up among the
rows of records only.
-/

namespace NexusOs.Ledger

open Option LedgerRow

open Transition (Run)

/-- The rows of a ledger, in order. The row at position `n` has sequence `n + 1`. -/
abbrev Rows := List LedgerRow

namespace LedgerRow

/-- The content of a row that has the identity `id`. -/
def digestOf? (id : Bytes 32) (row : LedgerRow) : Option (Bytes 32) :=
  row.member?.bind fun member => if member.key.id = id then some member.key.digest else none

/-- The identity of a row that has the role `part`. -/
def holds? (part : Part) (row : LedgerRow) : Option (Bytes 32) :=
  row.member?.bind fun member => if member.part = some part then some member.key.id else none

/-- Whether a row explains `key`. -/
def explains? (key : RecordKey) : LedgerRow → Option Unit
  | .explanation original _ => if original = key then some () else none
  | _ => none

/-- Whether a row corrects `key`. -/
def corrects? (key : RecordKey) : LedgerRow → Option Unit
  | .correction about _ _ => if about = key then some () else none
  | _ => none

/-- The top of an acknowledgement. -/
def ackTop? : LedgerRow → Option Seq
  | .acknowledgement set _ => some set.top
  | _ => none

/-- The explanation a row is. -/
def explanation? : LedgerRow → Option (RecordKey × Cause)
  | .explanation original cause => some (original, cause)
  | _ => none

/-- Whether a row is `wanted`. -/
def is? (wanted row : LedgerRow) : Option Unit := if row = wanted then some () else none

end LedgerRow

namespace Rows

/-- `row_by_id`. -/
def rowById (rows : Rows) (id : Bytes 32) : Option Row :=
  (Log.first (digestOf? id) rows).map fun (seq, digest) => ⟨seq, digest⟩

/-- The sequence of the first row that is wanted: `find_seq`. -/
def findSeq (rows : Rows) (wanted : LedgerRow → Option Unit) : Option Seq :=
  (Log.first wanted rows).map Prod.fst

/-- The N of the last acknowledgement row, or zero. -/
def durableFrontier (rows : Rows) : Seq := ((Log.last ackTop? rows).map Prod.snd).getD 0

/-- The explanations with a sequence above `above` and at most `upto`. -/
def explanations (rows : Rows) (above upto : Seq) : List (Seq × RecordKey × Cause) :=
  (rows.zipIdx 1).filterMap fun (row, seq) =>
    row.explanation?.bind fun (original, cause) =>
      if above < seq ∧ seq ≤ upto then some (seq, original, cause) else none

/-- The sequence of the last explanation, or zero. -/
def lastExplanation (rows : Rows) : Seq :=
  ((Log.last explanation? rows).map Prod.fst).getD 0

/-- `member_facts`. -/
def memberFacts (rows : Rows) (member : Member) : MemberFacts where
  row := rows.rowById member.key.id
  explained := rows.findSeq (explains? member.key)
  corrected := rows.findSeq (corrects? member.key)
  holder := member.part.bind fun part =>
    (Log.first (holds? part) rows).map fun (seq, id) => ⟨id, seq⟩
  prepared := member.part.any fun part =>
    rows.any fun row => row.member?.any fun m => m.part == some part.preparedOf

end Rows

/-- A digest of the explanations of a set. -/
abbrev SetDigest := List (Seq × RecordKey × Cause) → Bytes 32

variable (digest : SetDigest) (rows : Rows)

/-- The set of explanations in a range, as `recheck` reports it. -/
def Rows.setFacts (above upto : Seq) : SetFacts where
  frontier := rows.durableFrontier
  head := rows.length
  top := upto
  count := (rows.explanations above upto).length
  digest := digest (rows.explanations above upto)

/-- `survey`: the explanations above the durable frontier. -/
def Rows.survey : SetFacts := rows.setFacts digest rows.durableFrontier rows.lastExplanation

/-- The answers that are true of a ledger. A verb may fail, or answer that the ledger is
corrupt, at any time. -/
def Rows.Truth : (verb : Verb) → verb.Answer → Prop
  | .facts _ member, .got facts => facts = rows.memberFacts member
  | .row id, .got row => row = rows.rowById id
  | .explained key, .got seq => seq = rows.findSeq (explains? key)
  | .acknowledgement set nonce, .got seq =>
    seq = rows.findSeq (is? (.acknowledgement set nonce))
  | .frontier, .got seq => seq = rows.durableFrontier
  | .survey, .got set => set = rows.survey digest
  | .recheck above upto, .got set => set = rows.setFacts digest above upto
  | .present occupant, .got seq => seq = rows.findSeq (is? occupant.row)
  | _, _ => True

/-- The books of an honest storage. -/
def honest : Books Rows where
  truth := Rows.Truth digest
  breaks _ _ _ := True
  append rows more := rows ++ more
  append_nil := List.append_nil
  size := List.length
  size_append _ _ := List.length_append

/-- The answers of `facts`, `present` and `recheck` that are true of a ledger. Every other read may
answer anything. -/
def Rows.Reports : (verb : Verb) → verb.Answer → Prop
  | .facts _ member, .got facts => facts = rows.memberFacts member
  | .present occupant, .got seq => seq = rows.findSeq (is? occupant.row)
  | .recheck above upto, .got set => set = rows.setFacts digest above upto
  | _, _ => True

/-- The books of a storage of which only these reads are trusted. -/
def reporting : Books Rows := { honest digest with truth := Rows.Reports digest }

variable {digest} {rows}

/-- Books of a ledger of rows whose `facts` and `present` are true. -/
class Faithful (books : Books Rows) : Prop where
  append : ∀ rows more, books.append rows more = rows ++ more
  facts : ∀ {rows index member facts}, books.truth rows (.facts index member) (.got facts) →
    facts = rows.memberFacts member
  present : ∀ {rows occupant seq}, books.truth rows (.present occupant) (.got seq) →
    seq = rows.findSeq (is? occupant.row)

instance (digest : SetDigest) : Faithful (honest digest) := ⟨fun _ _ => rfl, id, id⟩

instance (digest : SetDigest) : Faithful (reporting digest) := ⟨fun _ _ => rfl, id, id⟩

/-! ## What the reads of an honest ledger say -/

namespace Rows

variable {rows more : Rows} {key : RecordKey} {id : Bytes 32} {row : LedgerRow}
  {wanted : LedgerRow → Option Unit} {seq : Seq}

/-- The record is found in the ledger: the first row with its identity has its content. -/
def Has (rows : Rows) (key : RecordKey) : Prop :=
  ∃ row, rows.rowById key.id = some row ∧ row.digest = key.digest

/-- A row of the ledger was written for the record. -/
def Contains (rows : Rows) (key : RecordKey) : Prop :=
  ∃ row ∈ rows, ∃ member, row.member? = some member ∧ member.key = key

theorem digestOf?_eq_none :
    digestOf? id row = none ↔ ∀ member, row.member? = some member →
      member.key.id ≠ id := by
  unfold digestOf?
  cases row.member? with
  | none | some member => simp

theorem rowById_eq_none :
    rows.rowById id = none ↔
      ∀ row ∈ rows, ∀ member, row.member? = some member → member.key.id ≠ id := by
  simp only [rowById, map_eq_none_iff, Log.first_eq_none, digestOf?_eq_none]

theorem rowById_append {row : Row} (h : rows.rowById id = some row) :
    rowById (rows ++ more) id = some row := by
  obtain ⟨⟨seq, digest⟩, hfirst, rfl⟩ := map_eq_some_iff.mp h
  rw [rowById, Log.first_append_of_some hfirst]
  rfl

/-- A record that is found in the ledger stays so. -/
theorem Has.append (h : rows.Has key) : Has (rows ++ more) key := by
  obtain ⟨row, hrow, hdigest⟩ := h
  exact ⟨row, rowById_append hrow, hdigest⟩

/-- A row found by identity and content was written for the record. -/
theorem digestOf?_eq_some (h : digestOf? key.id row = some key.digest) :
    ∃ member, row.member? = some member ∧ member.key = key := by
  obtain ⟨member, hmember, hid⟩ := bind_eq_some_iff.mp h
  split at hid
  · obtain ⟨⟨_, _⟩, _⟩ := member
    simp_all
  · cases hid

/-- A record that is found in the ledger has a row. -/
theorem Has.contains (h : rows.Has key) : rows.Contains key := by
  obtain ⟨found, hfound, hdigest⟩ := h
  obtain ⟨⟨seq, digest⟩, hfirst, rfl⟩ := map_eq_some_iff.mp hfound
  obtain ⟨row, hmem, hwanted⟩ := Log.first_eq_some hfirst
  exact ⟨row, hmem, digestOf?_eq_some (hdigest ▸ hwanted)⟩

/-- A record enters the ledger only with a row of its own. -/
theorem Has.of_append (h : Has (rows ++ more) key) : rows.Has key ∨ Contains more key := by
  obtain ⟨found, hfound, hdigest⟩ := h
  cases hrows : rows.rowById key.id with
  | some row =>
    rw [rowById_append hrows] at hfound
    exact .inl ⟨found, hrows.trans hfound, hdigest⟩
  | none =>
    have hnone : Log.firstFrom (digestOf? key.id) 1 rows = none := by
      simpa [rowById, Log.first] using hrows
    rw [rowById, Log.first, Log.firstFrom_append, hnone] at hfound
    obtain ⟨⟨seq, digest⟩, hfirst, rfl⟩ := map_eq_some_iff.mp hfound
    obtain ⟨row, hmem, hwanted⟩ := Log.firstFrom_eq_some hfirst
    exact .inr ⟨row, hmem, digestOf?_eq_some (hdigest ▸ hwanted)⟩

/-- A row whose identity is new is found by it. -/
theorem has_of_new {member : Member} (hnew : rows.rowById member.key.id = none)
    (hrow : row.member? = some member) : Has (rows ++ row :: more) member.key := by
  have hwanted : digestOf? member.key.id row = some member.key.digest := by
    simp [digestOf?, hrow]
  have hnone : Log.firstFrom (digestOf? member.key.id) 1 rows = none := by
    simpa [rowById, Log.first] using hnew
  refine ⟨⟨1 + rows.length, member.key.digest⟩, ?_, rfl⟩
  rw [rowById, Log.first, Log.firstFrom_append, hnone]
  simp only [Log.firstFrom, hwanted]
  rfl

theorem findSeq_eq_none : rows.findSeq wanted = none ↔ ∀ row ∈ rows, wanted row = none := by
  simp only [findSeq, map_eq_none_iff, Log.first_eq_none]

theorem findSeq_eq_some (h : rows.findSeq wanted = some seq) :
    ∃ row ∈ rows, wanted row = some () := by
  obtain ⟨⟨k, ⟨⟩⟩, hfirst, -⟩ := map_eq_some_iff.mp h
  exact Log.first_eq_some hfirst

theorem explained_eq_none :
    rows.findSeq (explains? key) = none ↔ ∀ cause, .explanation key cause ∉ rows := by
  rw [findSeq_eq_none]
  constructor
  · intro h cause hmem
    simpa [explains?] using h _ hmem
  intro h row hmem
  cases row with
  | explanation original cause =>
    simp only [explains?, ite_eq_right_iff]
    rintro rfl
    exact absurd hmem (h cause)
  | _ => rfl

theorem not_mem_of_corrected (h : rows.findSeq (corrects? key) = none) :
    ∀ seq exit, .correction key seq exit ∉ rows := by
  intro seq exit hmem
  simpa [corrects?] using findSeq_eq_none.mp h _ hmem

theorem mem_of_findSeq_is (h : rows.findSeq (is? row) = some seq) : row ∈ rows := by
  obtain ⟨found, hmem, his⟩ := findSeq_eq_some h
  simp only [is?] at his
  split at his
  · rename_i heq
    exact heq ▸ hmem
  · cases his

end Rows

section Reports

variable {digest : SetDigest} {core : Core} {rows : Rows} {member : Member} {key : RecordKey}
  {gating : Bool}

/-- What was tested of a member that was classified `Insert`. -/
theorem Admitted.honest (h : Admitted (honest digest) core rows member gating) :
    core.Live ∧ rows.rowById member.key.id = none ∧ ¬ core.Remembers member.key ∧
      (∀ cause, .explanation member.key cause ∉ rows) ∧
      (gating = true → ∀ seq exit, .correction member.key seq exit ∉ rows) := by
  obtain ⟨hlive, facts, ⟨_, rfl⟩, hrow, hknown, hcorrected⟩ := h
  obtain ⟨hremembers, hexplained⟩ := Core.known_eq_none.mp hknown
  exact ⟨hlive, hrow, hremembers, Rows.explained_eq_none.mp hexplained,
    fun hgating => Rows.not_mem_of_corrected (hcorrected hgating)⟩

/-- What was tested of a member that was classified `Present`. -/
theorem Found.honest {books : Books Rows} [Faithful books] (h : Found books rows member gating) :
    rows.Has member.key ∧ (gating = true → ∀ seq exit, .correction member.key seq exit ∉ rows) := by
  obtain ⟨facts, row, ⟨_, hfacts⟩, hrow, hdigest, hcorrected⟩ := h
  obtain rfl := Faithful.facts hfacts
  exact ⟨⟨row, hrow, hdigest⟩, fun hgating => Rows.not_mem_of_corrected (hcorrected hgating)⟩

theorem Missing.honest (h : Missing (honest digest) rows key) : ¬ rows.Has key := by
  rintro ⟨found, hfound, hdigest⟩
  obtain ⟨member, facts, rfl, ⟨_, rfl⟩, hmissing⟩ | ⟨row, hrow, hmissing⟩ := h
  · exact hmissing found hfound hdigest
  have hrow : some row = rows.rowById key.id := hrow
  rw [hfound] at hrow
  obtain rfl := some.inj hrow
  exact hmissing hdigest

theorem Explained.honest (h : Explained (honest digest) rows key) :
    ∃ cause, .explanation key cause ∈ rows := by
  have hsome : ∃ seq, rows.findSeq (explains? key) = some seq := by
    obtain ⟨seq, hseq⟩ | ⟨member, facts, seq, rfl, ⟨_, rfl⟩, hseq⟩ := h
    · exact ⟨seq, .symm hseq⟩
    · exact ⟨seq, hseq⟩
  by_contra hnone
  rw [not_exists] at hnone
  rw [Rows.explained_eq_none.mpr hnone] at hsome
  simp at hsome

end Reports

end NexusOs.Ledger
