import NexusOs.Ledger.Honest

/-!
# The constraints of a ledger

A ledger has no identity twice, no role of a commitment twice, and no other role of a commitment
before its Prepared record. The members of a batch are classified against the ledger before any
is inserted. The classification is complete: a batch that passes it breaks no constraint,
whatever its members are to each other, so that the storage never answers that one is broken;
and a member that is refused would break the constraint its cause names.
-/

namespace NexusOs.Ledger

open List

open Transition (Run)

/-! ## Lawful ledgers -/

variable {record : Member} {part : Part} {index : Nat} {pending : List Bool} {event : Event}

/-- The records of a ledger, in order. -/
def Rows.records (rows : Rows) : List Member := rows.filterMap LedgerRow.member?

variable {digest : SetDigest} {partOf : RecordKey → Option Part} {core : Core}
  {rows held : Rows} {records : List Member} {member : Member} {earlier members : List Member}
  {facts : MemberFacts} (pairs : List (Member × Bool))

/-- No identity twice. -/
def OneIdentity (records : List Member) : Prop :=
  records.Pairwise fun first second => first.key.id ≠ second.key.id

/-- No commitment and role twice. -/
def OneRole (records : List Member) : Prop :=
  records.Pairwise fun first second => ∀ part, first.part = some part → second.part ≠ some part

/-- Every role but Prepared has a Prepared record of its commitment at a smaller sequence. -/
def PreparedFirst (records : List Member) : Prop :=
  ∀ before member after, records = before ++ member :: after →
    ∀ part, member.part = some part → part.role ≠ .prepared →
      ∃ first ∈ before, first.part = some part.preparedOf

/-- The constraints of a ledger. -/
structure Lawful (records : List Member) : Prop where
  identity : OneIdentity records
  role : OneRole records
  prepared : PreparedFirst records

/-- The constraint a cause names, of the identity or the part that it carries: that the identity
or the part stands once, or that the part stands behind its Prepared record. -/
def CauseKind.Names : CauseKind → List Member → Prop
  | .identityContent id _ _, records =>
    records.Pairwise fun first second => first.key.id = id → second.key.id ≠ id
  | .duplicateRole part _ _, records =>
    records.Pairwise fun first second => first.part = some part → second.part ≠ some part
  | .missingPrepared part _, records =>
    ∀ before member after, records = before ++ member :: after → member.part = some part →
      ∃ first ∈ before, first.part = some part.preparedOf

/-- A lawful ledger of records whose part is the one their key determines. -/
structure Rows.Sound (partOf : RecordKey → Option Part) (rows : Rows) : Prop where
  lawful : Lawful rows.records
  parts : ∀ record ∈ rows.records, record.part = partOf record.key

theorem Rows.records_append (rows more : Rows) :
    Rows.records (rows ++ more) = rows.records ++ more.records :=
  filterMap_append

theorem Rows.mem_records : member ∈ rows.records ↔ ∃ row ∈ rows, row.member? = some member :=
  mem_filterMap

/-- A record that breaks no constraint keeps a ledger lawful. -/
theorem Lawful.snoc (h : Lawful records) (hid : ∀ record ∈ records, record.key.id ≠ member.key.id)
    (hrole : ∀ record ∈ records, ∀ part, record.part = some part → member.part ≠ some part)
    (hprepared : ∀ part, member.part = some part → part.role ≠ .prepared →
      ∃ record ∈ records, record.part = some part.preparedOf) :
    Lawful (records ++ [member]) where
  identity := pairwise_append.mpr ⟨h.identity, pairwise_singleton _ _,
    fun record hmem _ hlast => mem_singleton.mp hlast ▸ hid record hmem⟩
  role := pairwise_append.mpr ⟨h.role, pairwise_singleton _ _,
    fun record hmem _ hlast => mem_singleton.mp hlast ▸ hrole record hmem⟩
  prepared before last after heq part hpart hnot := by
    obtain ⟨mid, rfl, htail⟩ | ⟨mid, hrecords, htail⟩ := append_eq_append_iff.mp heq
    · cases mid with
      | nil =>
        cases htail
        simpa using hprepared part hpart hnot
      | cons record mid => simp at htail
    · cases mid with
      | nil =>
        cases htail
        rw [append_nil] at hrecords
        exact hrecords ▸ hprepared part hpart hnot
      | cons record mid =>
        obtain ⟨rfl, -⟩ := htail
        exact h.prepared before last mid hrecords part hpart hnot

/-- What was lawful before records were added. -/
theorem Lawful.of_append {more : List Member} (h : Lawful (records ++ more)) : Lawful records where
  identity := (pairwise_append.mp h.identity).1
  role := (pairwise_append.mp h.role).1
  prepared before member after heq := h.prepared before member (after ++ more) (by simp [heq])

/-! ## What the facts of a member say -/

theorem row_eq_none : (rows.memberFacts member).row = none ↔
    ∀ record ∈ rows.records, record.key.id ≠ member.key.id := by
  simp only [Rows.memberFacts, Rows.rowById_eq_none, Rows.mem_records]
  constructor
  · rintro h record ⟨row, hmem, hrow⟩
    exact h row hmem record hrow
  · intro h row hmem record hrow
    exact h record ⟨row, hmem, hrow⟩

theorem holder_eq_none (hpart : member.part = some part) :
    (rows.memberFacts member).holder = none ↔ ∀ record ∈ rows.records, record.part ≠ some part := by
  simp only [Rows.memberFacts, hpart, Option.bind_some, Option.map_eq_none_iff, Log.first_eq_none,
    Rows.mem_records, LedgerRow.holds?, Option.bind_eq_none_iff]
  constructor
  · rintro h record ⟨row, hmem, hrow⟩ hrecord
    simpa [hrecord] using h row hmem record hrow
  · intro h row hmem record hrow
    exact if_neg (h record ⟨row, hmem, hrow⟩)

theorem prepared_eq_true (hpart : member.part = some part) :
    (rows.memberFacts member).prepared = true ↔
      ∃ record ∈ rows.records, record.part = some part.preparedOf := by
  simp only [Rows.memberFacts, hpart, Option.any_some, any_eq_true, Rows.mem_records,
    Option.any_eq_true, beq_iff_eq]
  constructor
  · rintro ⟨row, hmem, record, hrow, hrecord⟩
    exact ⟨record, ⟨row, hmem, hrow⟩, hrecord⟩
  · rintro ⟨record, ⟨row, hmem, hrow⟩, hrecord⟩
    exact ⟨row, hmem, record, hrow, hrecord⟩

/-- What was tested of a member that breaks no constraint. -/
theorem constraint_eq_none (h : constraint member facts earlier = none) :
    facts.row = none ∧ ∀ part, member.part = some part → facts.holder = none ∧
      (part.role ≠ .prepared → facts.prepared = true ∨
        ∃ first ∈ earlier, first.part = some part.preparedOf) := by
  unfold constraint at h
  cases hrow : facts.row with
  | some existing => simp [hrow] at h
  | none =>
    refine ⟨rfl, fun part hpart => ?_⟩
    cases hholder : facts.holder with
    | some holder => simp [hrow, hpart, hholder] at h
    | none =>
      refine ⟨rfl, fun hrole => ?_⟩
      simp only [hrow, hpart, hholder] at h
      split_ifs at h with hmissing
      by_contra hnot
      rw [not_or] at hnot
      refine hmissing ⟨hrole, by simpa using hnot.1, any_eq_false.mpr fun first hmem => ?_⟩
      exact fun heq => hnot.2 ⟨first, hmem, by simpa using heq⟩

/-! ## Batches -/

/-- Two members share neither identity nor role. -/
def Apart (first second : Member) : Prop :=
  first.key.id ≠ second.key.id ∧ ∀ part, first.part = some part → second.part ≠ some part

theorem apart_of_pairWellFormed {otherIndex : Nat} {other : Member}
    (h : pairWellFormed index member otherIndex other = true) (hne : otherIndex ≠ index) :
    Apart member other := by
  unfold pairWellFormed at h
  rw [if_neg hne] at h
  split_ifs at h with hid
  refine ⟨fun heq => hid heq.symm, fun part hpart hother => ?_⟩
  simp [hpart, hother] at h

/-- The members of a well-formed batch are apart. -/
theorem pairwise_of_wellFormed {batch : List FactRecord} (h : wellFormed batch = true) :
    (batch.map FactRecord.member).Pairwise Apart := by
  unfold wellFormed at h
  split_ifs at h
  rw [pairwise_map, pairwise_iff_getElem]
  intro i j hi hj hlt
  have hpairs := all_eq_true.mp h (batch[i], i)
    (mk_mem_zipIdx_iff_getElem?.mpr (List.getElem?_eq_getElem hi))
  have hpair := all_eq_true.mp hpairs (batch[j], j)
    (mk_mem_zipIdx_iff_getElem?.mpr (List.getElem?_eq_getElem hj))
  exact apart_of_pairWellFormed hpair (Nat.ne_of_gt hlt)

/-- What holds while the members of a batch are inserted: `held` is the ledger `rows` with the
members of `earlier` that were to be inserted. -/
structure Progress (partOf : RecordKey → Option Part) (rows : Rows) (earlier : List Member)
    (held : Rows) : Prop where
  sound : held.Sound partOf
  source : ∀ record ∈ held.records, record ∈ rows.records ∨ record ∈ earlier
  roles : ∀ first ∈ earlier, ∀ part, first.part = some part →
    ∃ record ∈ held.records, record.part = some part
  grows : rows.records ⊆ held.records

theorem progress_nil (h : rows.Sound partOf) : Progress partOf rows [] rows :=
  ⟨h, fun _ hmem => .inl hmem, nofun, .refl _⟩

/-- A member that is present adds nothing: the ledger has its role. -/
theorem Progress.present (h : Progress partOf rows earlier held)
    (hmember : member.part = partOf member.key) (hhas : rows.Has member.key) :
    Progress partOf rows (earlier ++ [member]) held := by
  refine ⟨h.sound, fun record hmem => ?_, fun first hmem part hfirst => ?_, h.grows⟩
  · exact (h.source record hmem).imp_right (mem_append_left _)
  rcases mem_append.mp hmem with hmem | hmem
  · exact h.roles first hmem part hfirst
  obtain rfl := mem_singleton.mp hmem
  obtain ⟨row, hmem, record, hrow, hkey⟩ := hhas.contains
  have hrecord := h.grows (Rows.mem_records.mpr ⟨row, hmem, hrow⟩)
  refine ⟨record, hrecord, ?_⟩
  rw [h.sound.parts record hrecord, hkey, ← hmember, hfirst]

/-- A member that breaks no constraint of the ledger, or is preceded in the batch by what it
needs, is inserted. -/
theorem Progress.insert (h : Progress partOf rows earlier held) {row : LedgerRow}
    (hrow : row.member? = some member) (hmember : member.part = partOf member.key)
    (hapart : ∀ first ∈ earlier, Apart first member)
    (hconstraint : constraint member (rows.memberFacts member) earlier = none) :
    Progress partOf rows (earlier ++ [member]) (held ++ [row]) := by
  obtain ⟨hnew, hparts⟩ := constraint_eq_none hconstraint
  have hrecords : Rows.records (held ++ [row]) = held.records ++ [member] := by
    simp [Rows.records, hrow]
  refine ⟨⟨?_, fun record hmem => ?_⟩, fun record hmem => ?_, fun first hmem part hfirst => ?_, ?_⟩
  · rw [hrecords]
    refine h.sound.lawful.snoc (fun record hmem => ?_) (fun record hmem part hrecord hpart => ?_)
      fun part hpart hrole => ?_
    · rcases h.source record hmem with hmem | hmem
      · exact row_eq_none.mp hnew record hmem
      · exact (hapart record hmem).1
    · rcases h.source record hmem with hmem | hmem
      · exact (holder_eq_none hpart).mp (hparts part hpart).1 record hmem hrecord
      · exact (hapart record hmem).2 part hrecord hpart
    · rcases (hparts part hpart).2 hrole with hprepared | ⟨first, hmem, hfirst⟩
      · obtain ⟨record, hmem, hrecord⟩ := (prepared_eq_true hpart).mp hprepared
        exact ⟨record, h.grows hmem, hrecord⟩
      · exact h.roles first hmem _ hfirst
  · rw [hrecords] at hmem
    rcases mem_append.mp hmem with hmem | hmem
    · exact h.sound.parts record hmem
    · exact mem_singleton.mp hmem ▸ hmember
  · rw [hrecords] at hmem
    rcases mem_append.mp hmem with hmem | hmem
    · exact (h.source record hmem).imp_right (mem_append_left _)
    · exact .inr (mem_append_right _ hmem)
  · rw [hrecords]
    rcases mem_append.mp hmem with hmem | hmem
    · obtain ⟨record, hmem, hrecord⟩ := h.roles first hmem part hfirst
      exact ⟨record, mem_append_left _ hmem, hrecord⟩
    · exact ⟨first, mem_append_right _ hmem, hfirst⟩
  · rw [hrecords]
    exact subset_append_of_subset_left _ h.grows

/-! ## A storage that checks the constraints -/

/-- The answers that are true of a ledger, where the storage reports on records whose part is
the one their key determines. -/
def Rows.TruthOf (digest : SetDigest) (partOf : RecordKey → Option Part) (rows : Rows) :
    (verb : Verb) → verb.Answer → Prop
  | .facts _ member, .got facts => facts = rows.memberFacts member ∧ member.part = partOf member.key
  | verb, answer => rows.Truth digest verb answer

/-- The books of an honest storage that answers that a constraint is broken only where the
insert would break one. -/
def constrained (digest : SetDigest) (partOf : RecordKey → Option Part) : Books Rows :=
  { honest digest with
    truth := Rows.TruthOf digest partOf
    breaks := fun rows done row => ¬ Lawful (Rows.records (rows ++ done ++ [row])) }

theorem pendingRows_insert :
    pendingRows ((member, true) :: pairs) = .fact member :: pendingRows pairs := rfl

/-- A batch that was classified is inserted, in order, without breaking a constraint. -/
theorem Classified.sound
    (h : Classified (constrained digest partOf) core rows earlier members pending)
    (hapart : (earlier ++ members).Pairwise Apart) (hheld : Progress partOf rows earlier held)
    (k : Nat) : Rows.Sound partOf (held ++ (pendingRows (members.zip pending)).take k) := by
  induction h generalizing held k with
  | nil => simpa [pendingRows] using hheld.sound
  | @present earlier rest member pending facts row hfacts hrow hdigest _ ih =>
    obtain ⟨_, rfl, hmember⟩ := hfacts
    exact ih (by simpa using hapart) (hheld.present hmember ⟨row, hrow, hdigest⟩) k
  | @insert earlier rest member pending facts hfacts _ _ hconstraint _ ih =>
    obtain ⟨_, rfl, hmember⟩ := hfacts
    rw [zip_cons_cons, pendingRows_insert]
    cases k with
    | zero => simpa using hheld.sound
    | succ k =>
      have hfirst : ∀ first ∈ earlier, Apart first member := fun first hmem =>
        (pairwise_append.mp hapart).2.2 first hmem member mem_cons_self
      have hnext : Progress partOf rows (earlier ++ [member]) (held ++ [.fact member]) :=
        hheld.insert rfl hmember hfirst hconstraint
      simpa using ih (by simpa using hapart) hnext k

variable {more : Rows}

/-- Rows that are not of records keep a ledger sound. -/
theorem Rows.Sound.append_of_none (h : rows.Sound partOf)
    (hmore : ∀ row ∈ more, row.member? = none) :
    Rows.Sound partOf (rows ++ more) := by
  have hrecords : Rows.records (rows ++ more) = rows.records := by
    have hnone : more.records = [] := filterMap_eq_nil_iff.mpr hmore
    rw [Rows.records_append, hnone, append_nil]
  exact ⟨hrecords ▸ h.lawful, hrecords ▸ h.parts⟩

/-- A ledger that is sound was sound before rows were added. -/
theorem Rows.Sound.of_append (h : Rows.Sound partOf (rows ++ more)) : rows.Sound partOf := by
  obtain ⟨hlawful, hparts⟩ := h
  rw [Rows.records_append] at hlawful hparts
  exact ⟨hlawful.of_append, fun record hmem => hparts record (mem_append_left _ hmem)⟩

/-- Rows that an operation inserts break no constraint. -/
theorem Insertable.sound {more : List LedgerRow}
    (h : Insertable (constrained digest partOf) core rows more)
    (hcells : ∀ cell occupant, core.Holds cell occupant → occupant.row.member? = none)
    (hrows : rows.Sound partOf) (k : Nat) : Rows.Sound partOf (rows ++ more.take k) := by
  cases h with
  | batch hbatch hclassified =>
    exact hclassified.sound (pairwise_of_wellFormed hbatch) (progress_nil hrows) k
  | @gating member facts hfacts hconstraint =>
    obtain ⟨_, rfl, hmember⟩ := hfacts
    cases k with
    | zero => simpa using hrows
    | succ k =>
      have hnext : Progress partOf rows ([] ++ [member]) (rows ++ [.gating member]) :=
        (progress_nil hrows).insert rfl hmember nofun hconstraint
      simpa using hnext.sound
  | acknowledgement =>
    refine hrows.append_of_none fun row hmem => ?_
    obtain rfl := mem_singleton.mp (mem_of_mem_take hmem)
    rfl
  | cell hholds =>
    refine hrows.append_of_none fun row hmem => ?_
    obtain rfl := mem_singleton.mp (mem_of_mem_take hmem)
    exact hcells _ _ hholds

/-! ## Moves -/

variable {state next : Core × Rows} {move : Move}

/-- The ledger is sound, and no broken constraint has latched the store. -/
structure Constrained (partOf : RecordKey → Option Part) (state : Core × Rows) : Prop where
  cells : state.1.CellsOk
  rows : state.2.Sound partOf
  latch : state.1.latch ≠ some .constraint

/-- No insert of a sound ledger is answered by a broken constraint. -/
theorem Constrained.not_violation (h : Constrained partOf state) :
    ¬ Violation (constrained digest partOf) state.1 state.2 := by
  rintro ⟨before, ledger, more, done, rest, row, hc, hx, hledger, hinsert, hbreaks⟩
  have hledger : state.2 = ledger ++ more := hledger
  have hrows : Rows.Sound partOf (ledger ++ more) := hledger ▸ h.rows
  have hsound := hinsert.sound (fun cell occupant hholds => ?_) hrows.of_append (done.length + 1)
  · rw [take_append, take_of_length_le (Nat.le_succ _)] at hsound
    exact hbreaks (by simpa using hsound.lawful)
  · have hholds' : state.1.Holds cell occupant := by rwa [Core.Holds, ← hc, ← hx]
    exact h.cells.member?_row hholds'

/-- Every move keeps the ledger sound. -/
theorem Constrained.step (h : Constrained partOf state)
    (hstep : Move.Step (constrained digest partOf) state move next) : Constrained partOf next := by
  have hcells : ∀ cell occupant, state.1.Holds cell occupant → occupant.row.member? = none :=
    fun _ _ hholds => h.cells.member?_row hholds
  refine ⟨hstep.cellsOk h.cells, ?_, fun hlatch => ?_⟩
  · cases hstep with
    | held _ _ _ hrow hledger =>
      rcases hledger with rfl | rfl
      · exact h.rows
      · exact hrow.sound hcells h.rows 1
    | committed _ _ hrow => exact hrow.sound hcells h.rows 1
    | @paid core l members _ _ _ hrow =>
      have hsound := hrow.sound hcells h.rows (pendingRows members).length
      rwa [take_length] at hsound
    | doubted _ _ hrow hledger =>
      rcases hledger with rfl | ⟨k, rfl⟩
      · exact h.rows
      · exact hrow.sound hcells h.rows k
    | acked => exact h.rows.append_of_none (by simp [LedgerRow.member?])
    | settled _ hholds htest =>
      rcases htest with ⟨-, rfl⟩ | ⟨-, rfl⟩
      · exact h.rows
      · exact h.rows.append_of_none (by simpa using hcells _ _ hholds)
    | _ => exact h.rows
  · obtain hsame | ⟨cause, -, hset, hlatches⟩ := hstep.latch
    · exact h.latch (hsame.symm.trans hlatch)
    · cases hset.symm.trans hlatch
      exact h.not_violation hlatches

/-- An answer that a constraint is broken is that of a write. -/
theorem Event.writes_of_constraint (h : event.constraint = true) : event.verb.writes = true := by
  unfold Event.constraint at h
  split at h
  · rfl
  · rfl
  · rfl
  · cases h

/-- No insert of an operation on a sound ledger is answered by a broken constraint. -/
theorem Constrained.answers {label : Label} (h : Constrained partOf state)
    (hstep : Store.BooksStep (constrained digest partOf) state label next)
    (hmem : event ∈ label.trace) : event.constraint = false := by
  by_contra hconstraint
  rw [Bool.not_eq_false] at hconstraint
  obtain ⟨moves, hrun, hseen⟩ := hstep.moves
  have hlatched := (hseen.written event hmem (Event.writes_of_constraint hconstraint)).2 hconstraint
  obtain ⟨_, _, source, target, -, hfirst, hmove, -⟩ := hrun.of_mem hlatched
  have hsource : Constrained partOf source := hfirst.invariant (fun hs hmove => hs.step hmove) h
  cases hmove with
  | latched hlatches => exact hsource.not_violation hlatches

/-! ## The classification of a batch -/

/-- The classification of the members of a batch, in order, where the facts of each are reported
truthfully: which are to be inserted, unless one is refused. -/
def classifyAll (core : Core) (rows : Rows) : List Member → List Member → Option (List Bool)
  | _, [] => some []
  | earlier, member :: rest =>
    match core.classify (memberIndex earlier.length) member (rows.memberFacts member) earlier
        false with
    | (.present _, core) => (classifyAll core rows (earlier ++ [member]) rest).map (false :: ·)
    | (.insert, core) => (classifyAll core rows (earlier ++ [member]) rest).map (true :: ·)
    | (.refused _ _, _) => none

/-- What `refuse` answers. -/
theorem refuse_verdict (core : Core) (index : Nat) (member : Member) (kind : CauseKind)
    (gating : Bool) :
    (core.refuse index member kind gating).1 =
        .refused (.conflict index (.cause ⟨kind⟩)) (some index) ∨
      (core.refuse index member kind gating).1 = .refused (.tableFull index) (some index) := by
  cases gating with
  | true => exact .inl rfl
  | false =>
    cases hfull : core.tableFull with
    | true => exact .inr (by simp [Core.refuse, hfull])
    | false => exact .inl (by simp [Core.refuse, hfull])

/-- A batch that `classify` refuses no member of is classified. -/
theorem classified_of_classifyAll (h : classifyAll core rows earlier members = some pending)
    (hparts : ∀ member ∈ members, member.part = partOf member.key) :
    Classified (constrained digest partOf) core rows earlier members pending := by
  induction members generalizing earlier pending with
  | nil =>
    cases h
    exact .nil
  | cons member rest ih =>
    obtain ⟨hmember, hrest⟩ := forall_mem_cons.mp hparts
    have hreported : Reported (constrained digest partOf) rows member
        (rows.memberFacts member) := ⟨0, rfl, hmember⟩
    have hcases := classify_cases core (memberIndex earlier.length) member
      (rows.memberFacts member) earlier false
    rw [classifyAll] at h
    generalize core.classify (memberIndex earlier.length) member (rows.memberFacts member)
      earlier false = result at h hcases
    cases hcases with
    | corrected hgating => cases hgating
    | present _ hrow hdigest =>
      obtain ⟨pending, hpending, rfl⟩ := Option.map_eq_some_iff.mp h
      exact .present hreported hrow hdigest (ih hpending hrest)
    | insert _ hsession hknown hconstraint =>
      obtain ⟨pending, hpending, rfl⟩ := Option.map_eq_some_iff.mp h
      exact .insert hreported hsession hknown hconstraint (ih hpending hrest)
    | known | closed => cases h
    | @refused kind =>
      have hverdict := refuse_verdict core (memberIndex earlier.length) member kind false
      generalize core.refuse (memberIndex earlier.length) member kind false = result at h hverdict
      obtain ⟨verdict, after⟩ := result
      obtain rfl | rfl := hverdict
      · cases h
      · cases h

variable {kind : CauseKind}

/-- A constraint that `constraint` names would be broken. -/
theorem not_names_of_constraint
    (h : constraint member (rows.memberFacts member) earlier = some kind)
    (hheld : ∀ record ∈ held.records, record ∈ rows.records ∨ record ∈ earlier)
    (hgrows : rows.records ⊆ held.records) : ¬ kind.Names (held.records ++ [member]) := by
  unfold constraint at h
  cases hrow : (rows.memberFacts member).row with
  | some existing =>
    simp only [hrow] at h
    cases h
    have hsome : (rows.memberFacts member).row ≠ none := by simp [hrow]
    rw [ne_eq, row_eq_none] at hsome
    push Not at hsome
    obtain ⟨record, hmem, hid⟩ := hsome
    exact fun h => (pairwise_append.mp h).2.2 record (hgrows hmem) member (mem_singleton_self _) hid
      rfl
  | none =>
    simp only [hrow] at h
    cases hpart : member.part with
    | none => simp [hpart] at h
    | some part =>
      simp only [hpart] at h
      cases hholder : (rows.memberFacts member).holder with
      | some holder =>
        simp only [hholder] at h
        cases h
        have hsome : (rows.memberFacts member).holder ≠ none := by simp [hholder]
        rw [ne_eq, holder_eq_none hpart] at hsome
        push Not at hsome
        obtain ⟨record, hmem, hrecord⟩ := hsome
        exact fun h => (pairwise_append.mp h).2.2 record (hgrows hmem) member (mem_singleton_self _)
          hrecord hpart
      | none =>
        simp only [hholder] at h
        split_ifs at h with hmissing
        cases h
        obtain ⟨-, hprepared, hearlier⟩ := hmissing
        intro h
        obtain ⟨record, hmem, hrecord⟩ := h held.records member [] rfl hpart
        rcases hheld record hmem with hmem | hmem
        · rw [(prepared_eq_true hpart).mpr ⟨record, hmem, hrecord⟩] at hprepared
          cases hprepared
        · exact any_eq_false.mp hearlier record hmem (by simpa using hrecord)

/-- A member that `classify` refuses with a new cause breaks the constraint that `constraint`
names. -/
theorem constraint_of_refused {at_ : Nat} {conflict : Option Nat} {gating : Bool}
    (hnew : core.known member.key facts.explained = none)
    (h : (core.classify index member facts earlier gating).1 =
      .refused (.conflict at_ (.cause ⟨kind⟩)) conflict) :
    constraint member facts earlier = some kind := by
  have hcases := classify_cases core index member facts earlier gating
  generalize core.classify index member facts earlier gating = result at h hcases
  cases hcases with
  | known _ hknown => cases hnew.symm.trans hknown
  | @refused kind' _ _ _ hconstraint =>
    obtain hverdict | hverdict := refuse_verdict core index member kind' gating
    · cases hverdict.symm.trans h
      exact hconstraint
    · cases hverdict.symm.trans h
  | corrected | present | closed | insert => cases h

/-- The rows to be inserted are of members of the batch. -/
theorem mem_records_pendingRows (h : member ∈ Rows.records (pendingRows (members.zip pending))) :
    member ∈ members := by
  obtain ⟨row, hmem, hrow⟩ := Rows.mem_records.mp h
  obtain ⟨other, rfl, hpair⟩ := mem_pendingRows.mp hmem
  cases hrow
  exact (of_mem_zip hpair).1

/-! ## The classification is complete -/

/-- Over a ledger that keeps its constraints, whose records have the part their key determines.
A batch that is well formed and of which no member is refused is inserted, in order, without
breaking a constraint. A member that is refused with a new cause would break the constraint the
cause names, after the earlier ones. So in every run against a storage that reports a broken
constraint only where there is one, no insert is answered by one and none latches the store,
and the ledger keeps its constraints. -/
theorem classification_complete (hrows : rows.Sound partOf) :
    (∀ (core : Core) (batch : List FactRecord) (pending : List Bool), wellFormed batch = true →
      (∀ record ∈ batch, record.member.part = partOf record.member.key) →
      classifyAll core rows [] (batch.map FactRecord.member) = some pending →
      ∀ k, Lawful (Rows.records
        (rows ++ (pendingRows ((batch.map FactRecord.member).zip pending)).take k))) ∧
    (∀ (core : Core) (earlier : List Member) (pending : List Bool) (member : Member)
      (index : Nat) (conflict : Option Nat) (kind : CauseKind) (gating : Bool),
      classifyAll core rows [] earlier = some pending →
      core.known member.key (rows.memberFacts member).explained = none →
      (core.classify (memberIndex earlier.length) member (rows.memberFacts member) earlier
        gating).1 = .refused (.conflict index (.cause ⟨kind⟩)) conflict →
      ¬ kind.Names (Rows.records (rows ++ pendingRows (earlier.zip pending)) ++ [member])) ∧
    ∀ (limits : Limits) (address : LedgerId) (labels : List Label) (last : Core × Rows),
      Run (Store.BooksStep (constrained digest partOf)) (Core.new limits address, rows) labels
        last →
      Lawful last.2.records ∧ last.1.latch ≠ some .constraint ∧
        ∀ label ∈ labels, ∀ event ∈ label.trace, event.constraint = false := by
  refine ⟨fun core batch pending hbatch hparts hclassified k => ?_,
    fun core earlier pending member index conflict kind gating hclassified hnew hrefused => ?_,
    fun limits address labels last hrun => ?_⟩
  · have hclassified : Classified (constrained (fun _ => 0) partOf) core rows []
        (batch.map FactRecord.member) pending :=
      classified_of_classifyAll hclassified (by simpa using hparts)
    exact (hclassified.sound (pairwise_of_wellFormed hbatch) (progress_nil hrows) k).lawful
  · refine not_names_of_constraint (constraint_of_refused hnew hrefused) (fun record hmem => ?_) ?_
    · rw [Rows.records_append] at hmem
      exact (mem_append.mp hmem).imp_right mem_records_pendingRows
    · rw [Rows.records_append]
      exact subset_append_left _ _
  · have hkeeps : ∀ {labels state},
        Run (Store.BooksStep (constrained digest partOf)) (.new limits address, rows) labels
          state → Constrained partOf state := fun hrun =>
      Store.run_invariant hrun (fun hs hmove => hs.step hmove)
        ⟨(Core.new_sound limits address).1, hrows, nofun⟩
    refine ⟨(hkeeps hrun).rows.lawful, (hkeeps hrun).latch, fun label hlabel event hevent => ?_⟩
    obtain ⟨_, _, _, _, -, hfirst, hstep, -⟩ := hrun.of_mem hlabel
    exact (hkeeps hfirst).answers hstep hevent

/-- The Prepared record of a commitment and its Started record are inserted as one batch. -/
theorem classification_complete_of_pair :
    Lawful [⟨⟨1, 1⟩, some ⟨7, .prepared⟩⟩, ⟨⟨2, 1⟩, some ⟨7, .started⟩⟩] := by
  have hempty : Rows.Sound
      (fun key => if key.id = 1 then some ⟨7, .prepared⟩ else some ⟨7, .started⟩) [] :=
    ⟨⟨.nil, .nil, fun _ _ _ h => by simp [Rows.records] at h⟩, nofun⟩
  exact (@classification_complete (fun _ => 0) _ _ hempty).1 (.opened ⟨1, 1⟩ 0)
    [⟨⟨⟨1, 1⟩, some ⟨7, .prepared⟩⟩⟩, ⟨⟨⟨2, 1⟩, some ⟨7, .started⟩⟩⟩] [true, true] (by decide)
    (by decide) (by decide) 2

end NexusOs.Ledger
