import NexusOs.Ledger.Operations

/-!
# Storage

The storage verbs are supplied from outside the core, so a run of an operation is a run
against a storage. `Storage.Step` is what one call of a verb does to a ledger and to the open
transaction. It is stated over `Books`, an interface that says which answers of a read are
true of a ledger and how rows are appended. With `Books.any` nothing is known of any answer;
the honest ledger of `Honest.lean` is another instance.

Rows reach the ledger only through a commit, an unknown rollback or an unwind after an insert
was issued. Where the storage is in doubt, it keeps nothing, the rows whose inserts
succeeded, or every row issued. The doubt is settled where it arises: no operation reads the
ledger again before a barrier has passed.
-/

namespace NexusOs.Ledger

/-- One row of a ledger. A record's row says which entry point wrote it. -/
inductive LedgerRow where
  | fact (member : Member)
  | gating (member : Member)
  | explanation (original : RecordKey) (cause : Cause)
  | correction (about : RecordKey) (seq : Seq) (exit : Exit)
  | acknowledgement (set : SetFacts) (nonce : Bytes 16)
  deriving DecidableEq

/-- The record a row was written for. -/
def LedgerRow.member? : LedgerRow → Option Member
  | .fact member | .gating member => some member
  | .explanation _ _ | .correction _ _ _ | .acknowledgement _ _ => none

/-- The row a cell's occupant stands for. -/
def Occupant.row : Occupant → LedgerRow
  | .gating record _ => .gating record.member
  | .acknowledgement set nonce => .acknowledgement set nonce
  | .correction about seq exit => .correction about seq exit
  | .explanation original cause => .explanation original cause

/-- Which of the two entry points offers records: each writes one fixed family. -/
inductive Family where
  | fact
  | gating
  deriving DecidableEq

/-- The row a member of a family stands for. -/
def Family.row : Family → Member → LedgerRow
  | .fact, member => .fact member
  | .gating, member => .gating member

/-- The family an operation's inserts belong to. -/
def Call.family : Call → Family
  | .appendGating _ => .gating
  | _ => .fact

/-- What a storage is read through: the answers that are true of a ledger, appending, and the
number of rows. -/
structure Books (L : Type) where
  /-- The answers of the verbs that write nothing that are true of a ledger. -/
  truth : L → (verb : Verb) → verb.Answer → Prop
  /-- Whether a row, inserted after the rows of its transaction, breaks a constraint. -/
  breaks : L → List LedgerRow → LedgerRow → Prop
  append : L → List LedgerRow → L
  append_nil : ∀ ledger, append ledger [] = ledger
  size : L → Nat
  size_append : ∀ ledger rows, size (append ledger rows) = size ledger + rows.length

/-- Books that promise nothing: any verb may answer anything. Only the number of rows is kept. -/
def Books.any : Books Nat where
  truth _ _ _ := True
  breaks _ _ _ := True
  append ledger rows := ledger + rows.length
  append_nil _ := rfl
  size := id
  size_append _ _ := rfl

/-- The open transaction: every row whose insert was called, and those whose insert
answered `Inserted`. -/
structure Txn where
  issued : List LedgerRow
  inserted : List LedgerRow

namespace Txn

/-- Nothing issued. -/
def none : Txn := ⟨[], []⟩

/-- An insert was called for `row`. -/
def issue (txn : Txn) (row : LedgerRow) : Txn := { txn with issued := txn.issued ++ [row] }

/-- An insert was called for `row` and answered. -/
def insert (txn : Txn) (row : LedgerRow) : Insert → Txn
  | .inserted _ => ⟨txn.issued ++ [row], txn.inserted ++ [row]⟩
  | .constraint | .failed => txn.issue row

/-- The transaction at the moment a verb unwinds: an unwinding insert was issued. -/
def unwinding (txn : Txn) (family : Family) : Verb → Txn
  | .insert _ member => txn.issue (family.row member)
  | .insertAck snapshot => txn.issue (.acknowledgement snapshot.set snapshot.nonce)
  | .insertCell occupant => txn.issue occupant.row
  | _ => txn

end Txn

namespace Storage

variable {L : Type}

variable (books : Books L)

/-- The ledgers a transaction in doubt may leave. -/
def Undecided (ledger : L) (txn : Txn) (ledger' : L) : Prop :=
  ledger' = ledger ∨ ledger' = books.append ledger txn.inserted ∨
    ledger' = books.append ledger txn.issued

/-- The ledger and the transaction after a commit whose fate is unknown. -/
def InDoubt (ledger : L) (txn : Txn) (next : L × Txn) : Prop :=
  next = (ledger, txn) ∨ ∃ ledger', Undecided books ledger txn ledger' ∧ next = (ledger', .none)

/-- What an insert that answers does. It reports a constraint only where one is broken. -/
def Inserts (ledger : L) (txn : Txn) (row : LedgerRow) (answer : Insert) (next : L × Txn) : Prop :=
  (answer = .constraint → books.breaks ledger txn.inserted row) ∧
    next = (ledger, txn.insert row answer)

/-- What a verb that answers does. -/
def Answered (family : Family) (ledger : L) (txn : Txn) :
    (verb : Verb) → verb.Answer → L × Txn → Prop
  | .open, answer, next => books.truth ledger .open answer ∧ next = (ledger, .none)
  | .commit, .durable, next => next = (books.append ledger txn.inserted, .none)
  | .commit, .unknown, next => InDoubt books ledger txn next
  | .rollback, .undone, next => next = (ledger, .none)
  | .rollback, .unknown, next =>
    ∃ ledger', Undecided books ledger txn ledger' ∧ next = (ledger', .none)
  | .insert _ member, answer, next => Inserts books ledger txn (family.row member) answer next
  | .insertAck snapshot, answer, next =>
    Inserts books ledger txn (.acknowledgement snapshot.set snapshot.nonce) answer next
  | .insertCell occupant, answer, next => Inserts books ledger txn occupant.row answer next
  | .facts index member, answer, next =>
    books.truth ledger (.facts index member) answer ∧ next = (ledger, txn)
  | .row id, answer, next => books.truth ledger (.row id) answer ∧ next = (ledger, txn)
  | .explained key, answer, next =>
    books.truth ledger (.explained key) answer ∧ next = (ledger, txn)
  | .acknowledgement set nonce, answer, next =>
    books.truth ledger (.acknowledgement set nonce) answer ∧ next = (ledger, txn)
  | .frontier, answer, next => books.truth ledger .frontier answer ∧ next = (ledger, txn)
  | .survey, answer, next => books.truth ledger .survey answer ∧ next = (ledger, txn)
  | .recheck above upto, answer, next =>
    books.truth ledger (.recheck above upto) answer ∧ next = (ledger, txn)
  | .present occupant, answer, next =>
    books.truth ledger (.present occupant) answer ∧ next = (ledger, txn)
  | .run, answer, next => books.truth ledger .run answer ∧ next = (ledger, txn)

/-- What a verb that unwinds does. -/
def Unwound (family : Family) (ledger : L) (txn : Txn) (verb : Verb) (next : L × Txn) : Prop :=
  ∃ ledger', Undecided books ledger (txn.unwinding family verb) ledger' ∧
    next = (ledger', .none)

/-- One call of a storage verb. -/
def Step (family : Family) (state : L × Txn) (event : Event) (next : L × Txn) : Prop :=
  match event with
  | ⟨verb, some answer⟩ => Answered books family state.1 state.2 verb answer next
  | ⟨verb, none⟩ => Unwound books family state.1 state.2 verb next

variable {books}

variable {books : Books L} {family : Family} {ledger ledger' : L} {next : L × Txn} {txn : Txn}

/-- A transaction that issued nothing leaves the ledger as it was. -/
theorem undecided_none : Undecided books ledger .none ledger' ↔ ledger' = ledger := by
  simp [Undecided, Txn.none, books.append_nil]

/-- A verb that unwinds before any insert leaves the ledger as it was. -/
theorem unwound_none {verb : Verb} (h : Step books family (ledger, .none) ⟨verb, none⟩ next)
    (hverb : Txn.none.unwinding family verb = .none) : next = (ledger, .none) := by
  obtain ⟨ledger', hledger, rfl⟩ := h
  rw [hverb] at hledger
  rw [undecided_none.mp hledger]

/-- After a commit whose fate is unknown, a rollback decides nothing new. -/
theorem InDoubt.undecided (h : InDoubt books ledger txn next)
    (hnext : Undecided books next.1 next.2 ledger') : Undecided books ledger txn ledger' := by
  obtain rfl | ⟨ledger₁, hledger, rfl⟩ := h
  · exact hnext
  · rw [undecided_none.mp hnext]
    exact hledger

/-- A transaction that issued one row leaves the ledger with or without it. -/
theorem undecided_single {row : LedgerRow} (hissued : txn.issued = [row])
    (hinserted : txn.inserted = [] ∨ txn.inserted = [row])
    (h : Undecided books ledger txn ledger') :
    ledger' = ledger ∨ ledger' = books.append ledger [row] := by
  rw [Undecided, hissued] at h
  rcases hinserted with hinserted | hinserted
  · rw [hinserted, books.append_nil] at h
    tauto
  · rw [hinserted] at h
    tauto

/-- Books that promise nothing allow every answer and every unwind of every verb. -/
theorem step_any (family : Family) (state : Nat × Txn) (event : Event) :
    ∃ next, Step Books.any family state event next := by
  obtain ⟨verb, answer⟩ := event
  cases answer with
  | none => exact ⟨(state.1, .none), state.1, .inl rfl, rfl⟩
  | some answer =>
    cases verb with
    | commit =>
      cases answer with
      | durable => exact ⟨_, rfl⟩
      | unknown => exact ⟨_, .inl rfl⟩
    | rollback =>
      cases answer with
      | undone => exact ⟨_, rfl⟩
      | unknown => exact ⟨(state.1, .none), state.1, .inl rfl, rfl⟩
    | insert | insertAck | insertCell => exact ⟨_, fun _ => trivial, rfl⟩
    | «open» | run | facts | row | explained | acknowledgement | frontier | survey | recheck
    | present => exact ⟨_, trivial, rfl⟩

end Storage

end NexusOs.Ledger
