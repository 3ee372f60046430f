import NexusOs.Ledger.Persistence

/-!
# Acknowledgements tile the explanations

An acknowledgement names a range of sequence numbers, and the explanations in it. Against an honest
ledger each range starts where the one before ended and ends inside the ledger, so that every
explanation at or below the frontier is in exactly one acknowledged set.
-/

namespace NexusOs.Ledger

open List

open Transition (Run)

namespace Rows

variable {digest : SetDigest} {rows more pre post : Rows} {row : LedgerRow} {set later : SetFacts}
  {nonce : Bytes 16} {above upto seq : Seq} {original : RecordKey} {cause : Cause}

variable {mid : Rows} {nonce' : Bytes 16} {i j : Nat} {explanation : Seq × RecordKey × Cause}

theorem mem_explanations :
    (seq, original, cause) ∈ rows.explanations above upto ↔
      above < seq ∧ seq ≤ upto ∧
        ∃ i, seq = i + 1 ∧ rows[i]? = some (.explanation original cause) := by
  have hrow : ∀ row : LedgerRow,
      row.explanation? = some (original, cause) ↔ row = .explanation original cause := by
    intro row
    cases row <;> simp [LedgerRow.explanation?]
  simp only [explanations, mem_filterMap, Prod.exists, Option.bind_eq_some_iff]
  constructor
  · rintro ⟨row, k, hk, o, c, hexplanation, hrange⟩
    split at hrange
    · rename_i hle
      cases hrange
      obtain ⟨hk, hget⟩ := mk_mem_zipIdx_iff_le_and_getElem?_sub.mp hk
      refine ⟨hle.1, hle.2, seq - 1, (Nat.sub_add_cancel hk).symm, ?_⟩
      rw [hget, (hrow row).mp hexplanation]
    · cases hrange
  · rintro ⟨habove, hupto, i, rfl, hget⟩
    refine ⟨.explanation original cause, i + 1, ?_, original, cause, rfl, if_pos ⟨habove, hupto⟩⟩
    exact mk_mem_zipIdx_iff_le_and_getElem?_sub.mpr ⟨Nat.le_add_left _ _, by simpa using hget⟩

/-- Rows added later are above the range. -/
theorem explanations_append (h : upto ≤ rows.length) :
    explanations (rows ++ more) above upto = rows.explanations above upto := by
  unfold explanations
  rw [zipIdx_append, filterMap_append]
  refine append_right_eq_self.mpr ?_
  refine filterMap_eq_nil_iff.mpr fun entry hmem => ?_
  obtain ⟨row, k⟩ := entry
  have hk := le_snd_of_mem_zipIdx hmem
  refine Option.bind_eq_none_iff.mpr fun found _ => if_neg fun hrange => ?_
  have hle : k ≤ rows.length := Nat.le_trans hrange.2 h
  omega

theorem lastExplanation_le : rows.lastExplanation ≤ rows.length := by
  unfold lastExplanation
  cases hlast : Log.last LedgerRow.explanation? rows with
  | none => exact Nat.zero_le _
  | some found => exact Nat.lt_one_add_iff.mp (Log.lastFrom_lt hlast)

/-! ## Tiled ledgers -/

/-- The acknowledgement of `set` is right after the rows `rows`. -/
structure Tile (digest : SetDigest) (rows : Rows) (set : SetFacts) : Prop where
  frontier : set.frontier = rows.durableFrontier
  lt : set.frontier < set.top
  le : set.top ≤ rows.length
  count : set.count = (rows.explanations set.frontier set.top).length
  digest : set.digest = digest (rows.explanations set.frontier set.top)

/-- Every acknowledgement of the ledger was right when it was inserted. -/
def Tiled (digest : SetDigest) (rows : Rows) : Prop :=
  ∀ pre set nonce post, rows = pre ++ .acknowledgement set nonce :: post → Tile digest pre set

theorem durableFrontier_snoc :
    durableFrontier (rows ++ [.acknowledgement set nonce]) = set.top := by
  have htop : LedgerRow.ackTop? (.acknowledgement set nonce) = some set.top := rfl
  rw [durableFrontier, Log.last_snoc_of_some htop]
  rfl

theorem durableFrontier_append (h : ∀ row ∈ more, row.ackTop? = none) :
    durableFrontier (rows ++ more) = rows.durableFrontier := by
  rw [durableFrontier, Log.last_append_of_none h, durableFrontier]

/-- Rows are added to a tiled ledger. -/
theorem Tiled.append (h : Tiled digest rows)
    (hmore : ∀ pre set nonce post, more = pre ++ .acknowledgement set nonce :: post →
      Tile digest (rows ++ pre) set) : Tiled digest (rows ++ more) := by
  intro pre set nonce post heq
  obtain ⟨mid, rfl, htail⟩ | ⟨mid, hrows, htail⟩ := append_eq_append_iff.mp heq
  · exact hmore mid set nonce post htail
  cases mid with
  | nil => simpa [hrows] using hmore [] set nonce post (by simpa using htail.symm)
  | cons row mid =>
    obtain ⟨rfl, -⟩ := htail
    exact h pre set nonce mid hrows

/-- What was tiled before rows were added. -/
theorem Tiled.of_append (h : Tiled digest (rows ++ more)) : Tiled digest rows := by
  rintro pre set nonce post rfl
  exact h pre set nonce (post ++ more) (by simp)

/-- Rows that acknowledge nothing keep a ledger tiled. -/
theorem Tiled.append_of_none (h : Tiled digest rows) (hmore : ∀ row ∈ more, row.ackTop? = none) :
    Tiled digest (rows ++ more) := by
  refine h.append fun pre set nonce post heq => ?_
  cases hmore (.acknowledgement set nonce) (by simp [heq])

/-- An acknowledgement that is right keeps a ledger tiled. -/
theorem Tiled.snoc (h : Tiled digest rows) (htile : Tile digest rows set) :
    Tiled digest (rows ++ [.acknowledgement set nonce]) := by
  refine h.append fun pre set' nonce' post heq => ?_
  cases pre with
  | nil =>
    cases heq
    simpa using htile
  | cons row pre => simp at heq

/-- The frontier is the same after a row, or the row is an acknowledgement that raises it to
its top. -/
theorem Tiled.frontier_snoc (h : Tiled digest (rows ++ [row])) :
    durableFrontier (rows ++ [row]) = rows.durableFrontier ∨
      ∃ set nonce, row = .acknowledgement set nonce ∧ Tile digest rows set ∧
        durableFrontier (rows ++ [row]) = set.top := by
  cases row with
  | acknowledgement set nonce =>
    exact .inr ⟨set, nonce, rfl, h rows set nonce [] rfl, durableFrontier_snoc⟩
  | _ => exact .inl (durableFrontier_append (by simp [LedgerRow.ackTop?]))

/-- The frontier is inside the ledger. -/
theorem Tiled.frontier_le (h : Tiled digest rows) : rows.durableFrontier ≤ rows.length := by
  induction rows using List.reverseRecOn with
  | nil => exact Nat.le_refl 0
  | append_singleton rows row ih =>
    have hrows := ih h.of_append
    rw [length_append]
    obtain heq | ⟨set, nonce, -, htile, heq⟩ := h.frontier_snoc
    · rw [heq]
      exact Nat.le_succ_of_le hrows
    · rw [heq]
      exact Nat.le_succ_of_le htile.le

/-- The frontier never falls. -/
theorem Tiled.frontier_mono (h : Tiled digest (rows ++ more)) :
    rows.durableFrontier ≤ durableFrontier (rows ++ more) := by
  induction more using List.reverseRecOn with
  | nil => rw [append_nil]
  | append_singleton more row ih =>
    rw [← append_assoc] at h ⊢
    have hrows := ih h.of_append
    obtain heq | ⟨set, nonce, -, htile, heq⟩ := h.frontier_snoc
    · rwa [heq]
    · rw [heq]
      exact hrows.trans (htile.frontier ▸ Nat.le_of_lt htile.lt)

/-- An acknowledgement starts where the one before ended. -/
theorem Tiled.frontier_eq
    (h : Tiled digest (pre ++ .acknowledgement set nonce :: (mid ++ .acknowledgement later nonce' ::
      post))) (hmid : ∀ row ∈ mid, row.ackTop? = none) : later.frontier = set.top := by
  have htile := h (pre ++ .acknowledgement set nonce :: mid) later nonce' post (by simp)
  rw [htile.frontier, append_cons, durableFrontier_append hmid, durableFrontier_snoc]

/-- An acknowledgement starts at or after the end of every one before. -/
theorem Tiled.top_le
    (h : Tiled digest (pre ++ .acknowledgement set nonce :: (mid ++ .acknowledgement later nonce' ::
      post))) : set.top ≤ later.frontier := by
  rw [append_cons, ← append_assoc] at h
  have htile := h _ later nonce' post rfl
  have hmono := (h.of_append).frontier_mono
  rwa [durableFrontier_snoc, ← htile.frontier] at hmono

/-! ## Exactly one acknowledgement -/

/-- Row `i` is an acknowledgement, and the explanation was in its set when it was inserted. -/
def Covers (rows : Rows) (i : Nat) (explanation : Seq × RecordKey × Cause) : Prop :=
  ∃ set nonce, rows[i]? = some (.acknowledgement set nonce) ∧
    explanation ∈ explanations (rows.take i) set.frontier set.top

/-- What is acknowledged stays so. -/
theorem Covers.append (h : rows.Covers i explanation) : Covers (rows ++ more) i explanation := by
  obtain ⟨set, nonce, hget, hmem⟩ := h
  obtain ⟨hlt, -⟩ := List.getElem?_eq_some_iff.mp hget
  refine ⟨set, nonce, ?_, ?_⟩
  · rwa [List.getElem?_append_left hlt]
  · rwa [take_append_of_le_length (Nat.le_of_lt hlt)]

/-- An explanation at or below the frontier is in an acknowledged set. -/
theorem Tiled.exists_covers (h : Tiled digest rows)
    (hmem : (seq, original, cause) ∈ rows.explanations 0 rows.durableFrontier) :
    ∃ i, rows.Covers i (seq, original, cause) := by
  induction rows using List.reverseRecOn with
  | nil => cases hmem
  | append_singleton rows row ih =>
    have hrows := h.of_append
    obtain heq | ⟨set, nonce, rfl, htile, heq⟩ := h.frontier_snoc
    · rw [heq, explanations_append hrows.frontier_le] at hmem
      obtain ⟨i, hi⟩ := ih hrows hmem
      exact ⟨i, hi.append⟩
    · rw [heq, explanations_append htile.le] at hmem
      obtain ⟨hpos, htop, hrow⟩ := mem_explanations.mp hmem
      by_cases hlt : set.frontier < seq
      · refine ⟨rows.length, set, nonce, by simp, ?_⟩
        rw [take_left]
        exact mem_explanations.mpr ⟨hlt, htop, hrow⟩
      · have hle := Nat.not_lt.mp hlt
        rw [htile.frontier] at hle
        obtain ⟨i, hi⟩ := ih hrows (mem_explanations.mpr ⟨hpos, hle, hrow⟩)
        exact ⟨i, hi.append⟩

/-- The ranges of two acknowledgements are apart. -/
theorem Tiled.top_le_of_lt (h : Tiled digest rows)
    (hi : rows[i]? = some (.acknowledgement set nonce))
    (hj : rows[j]? = some (.acknowledgement later nonce')) (hlt : i < j) :
    set.top ≤ later.frontier := by
  have hmem : .acknowledgement set nonce ∈ rows.take j :=
    mem_of_getElem? ((List.getElem?_take_of_lt hlt).trans hi)
  obtain ⟨pre, mid, hpre⟩ := append_of_mem hmem
  obtain ⟨hj, hget⟩ := List.getElem?_eq_some_iff.mp hj
  have hrows : rows = pre ++ .acknowledgement set nonce :: (mid ++
      .acknowledgement later nonce' :: rows.drop (j + 1)) := by
    rw [← cons_append, ← append_assoc, ← hpre, ← hget, ← drop_eq_getElem_cons, take_append_drop]
  rw [hrows] at h
  exact h.top_le

/-- No explanation is in two acknowledged sets. -/
theorem Tiled.covers_unique (h : Tiled digest rows) (hi : rows.Covers i explanation)
    (hj : rows.Covers j explanation) : i = j := by
  have hnot : ∀ {i j}, rows.Covers i explanation → rows.Covers j explanation → ¬ i < j := by
    rintro i j ⟨set, nonce, hi, hmem⟩ ⟨later, nonce', hj, hmem'⟩ hlt
    have hle := h.top_le_of_lt hi hj hlt
    have htop := (mem_explanations.mp hmem).2.1
    have hfrontier := (mem_explanations.mp hmem').1
    exact absurd (Nat.le_trans htop hle) (Nat.not_le.mpr hfrontier)
  have hge := hnot hi hj
  have hle := hnot hj hi
  omega

end Rows

/-! ## Moves -/

variable {digest : SetDigest} {state next : Core × Rows} {move : Move}

/-- The tests of an acknowledgement. -/
theorem ackRefusal_eq_none {set now : SetFacts} (h : Publish.ackRefusal set now = none) :
    set.frontier = now.frontier ∧ set.frontier < set.top ∧ set.top ≤ now.head ∧
      set.count = now.count ∧ set.digest = now.digest := by
  unfold Publish.ackRefusal at h
  split_ifs at h with hfrontier hempty hfuture hset
  simp only [not_or, not_lt, not_le, not_not] at hfrontier hempty hfuture hset
  exact ⟨hfrontier, hempty.1, hfuture.1.trans hfuture.2, hset.1.symm, hset.2.symm⟩

/-- An acknowledgement that passed its tests is right. -/
theorem Passed.tile {rows : Rows} {set : SetFacts} (h : Passed (honest digest) rows set) :
    Rows.Tile digest rows set := by
  obtain ⟨now, hnow, hrefusal⟩ := h
  obtain rfl : now = rows.setFacts digest set.frontier set.top := hnow
  obtain ⟨hfrontier, hlt, hle, hcount, hdigest⟩ := ackRefusal_eq_none hrefusal
  exact ⟨hfrontier, hlt, hle, hcount, hdigest⟩

/-- What C or X holds is not an acknowledgement. -/
theorem Core.CellsOk.ackTop?_row {core : Core} (h : core.CellsOk) {cell : Cell}
    {occupant : Occupant} (hholds : core.Holds cell occupant) : occupant.row.ackTop? = none := by
  obtain ⟨_, _, _, rfl⟩ | ⟨_, _, rfl⟩ := h.holds_kind hholds
  · rfl
  · rfl

/-- A move adds no acknowledgement, or one that passed its tests and nothing else. -/
theorem Move.Step.acks (h : Move.Step (honest digest) state move next) (hok : state.1.CellsOk) :
    (∃ more, next.2 = state.2 ++ more ∧ ∀ row ∈ more, row.ackTop? = none) ∨
      ∃ set nonce, next.2 = state.2 ++ [.acknowledgement set nonce] ∧
        Passed (honest digest) state.2 set := by
  have hnone : ∃ more, state.2 = state.2 ++ more ∧ ∀ row ∈ more, row.ackTop? = none :=
    ⟨[], (append_nil _).symm, by simp⟩
  cases h with
  | @held core l _ occupant hready _ htest _ hledger =>
    rcases hledger with rfl | rfl
    · exact .inl hnone
    cases occupant with
    | gating record exit => exact .inl ⟨_, rfl, by simp [Occupant.row, LedgerRow.ackTop?]⟩
    | acknowledgement set nonce => exact .inr ⟨set, nonce, rfl, htest⟩
    | correction | explanation => exact htest.elim
  | committed => exact .inl ⟨_, rfl, by simp [LedgerRow.ackTop?]⟩
  | paid =>
    refine .inl ⟨_, rfl, fun row hmem => ?_⟩
    obtain ⟨member, rfl, -⟩ := mem_pendingRows.mp hmem
    rfl
  | doubted _ htest _ hledger =>
    rcases hledger with rfl | ⟨k, rfl⟩
    · exact .inl hnone
    refine .inl ⟨_, rfl, fun row hmem => ?_⟩
    obtain ⟨member, rfl, -⟩ | ⟨cell, occupant, rfl, hholds, -⟩ := htest row (mem_of_mem_take hmem)
    · rfl
    · exact hok.ackTop?_row hholds
  | acked _ htest => exact .inr ⟨_, _, rfl, htest⟩
  | settled _ hholds htest =>
    rcases htest with ⟨-, rfl⟩ | ⟨-, rfl⟩
    · exact .inl hnone
    · exact .inl ⟨_, rfl, by simpa using hok.ackTop?_row hholds⟩
  | _ => exact .inl hnone

/-- A move keeps the frontier, or raises it to the top of an acknowledgement at or below the
durable frontier. -/
theorem Move.Step.frontier (h : Move.Step (honest digest) state move next) :
    next.1.frontier = state.1.frontier ∨ ∃ top, next.1.frontier = max state.1.frontier top ∧
      top ≤ next.2.durableFrontier := by
  cases h with
  | @acked core l set nonce =>
    refine .inr ⟨set.top, by rw [raiseFrontier_eq], ?_⟩
    exact Nat.le_of_eq Rows.durableFrontier_snoc.symm
  | @acknowledged core l set nonce seq durable _ _ hfrontier htop =>
    refine .inr ⟨set.top, by rw [raiseFrontier_eq]; rfl, ?_⟩
    obtain rfl : durable = l.durableFrontier := hfrontier
    exact htop
  | latched => exact .inl (by rw [setLatch_eq])
  | settled _ hholds => exact .inl (settle_frame hholds _).2.2.2.2.2
  | _ => exact .inl rfl

/-- What every run keeps of the acknowledgements. -/
structure Tiling (digest : SetDigest) (state : Core × Rows) : Prop where
  cells : state.1.CellsOk
  rows : state.2.Tiled digest
  frontier : state.1.frontier ≤ state.2.durableFrontier

/-- Every move keeps the acknowledgements tiled, and the frontier at or below them. -/
theorem Tiling.step (h : Tiling digest state) (hstep : Move.Step (honest digest) state move next) :
    Tiling digest next := by
  have hrows : next.2.Tiled digest := by
    obtain ⟨more, hmore, hnone⟩ | ⟨set, nonce, hmore, hpassed⟩ := hstep.acks h.cells
    · exact hmore ▸ h.rows.append_of_none hnone
    · exact hmore ▸ h.rows.snoc hpassed.tile
  refine ⟨hstep.cellsOk h.cells, hrows, ?_⟩
  obtain ⟨more, hmore⟩ := hstep.grows
  have hle : state.1.frontier ≤ next.2.durableFrontier := by
    rw [← hmore] at hrows ⊢
    exact h.frontier.trans hrows.frontier_mono
  obtain hsame | ⟨top, hmax, htop⟩ := hstep.frontier
  · rwa [hsame]
  · rw [hmax]
    exact Nat.max_le.mpr ⟨hle, htop⟩

/-- The frontier never falls. -/
theorem Move.Step.frontier_mono (h : Move.Step (honest digest) state move next) :
    state.1.frontier ≤ next.1.frontier := by
  obtain hsame | ⟨top, hmax, -⟩ := h.frontier
  · exact Nat.le_of_eq hsame.symm
  · rw [hmax]
    exact Nat.le_max_left _ _

/-! ## Runs of operations -/

/-- The operation took a snapshot. -/
def Label.Takes (label : Label) (snapshot : Snapshot) : Prop :=
  ∃ nonce, label.call = .snapshot nonce ∧ label.reply = some (.snapshot (.taken snapshot))

variable {label : Label} {before after : List Label} {middle last : Core × Rows}
  {snapshot : Snapshot}

/-- The set of a snapshot is in the ledger when it is taken. -/
theorem Store.BooksStep.takes (h : Store.BooksStep (honest digest) state label next)
    (htakes : label.Takes snapshot) : snapshot.set.top ≤ next.2.length := by
  obtain ⟨moves, hrun, hseen⟩ := h.moves
  obtain ⟨nonce, hcall, hreply⟩ := htakes
  have htaken := hseen.answers
  rw [Answers, hcall, hreply] at htaken
  refine after_move (snapshot.set.top ≤ List.length ·) hrun
    (fun hgrow hle => hle.trans hgrow.length_le) htaken fun hmove => ?_
  cases hmove with
  | @taken core l _ _ htest =>
    have hset : snapshot.set = l.survey digest := htest
    rw [hset]
    exact Rows.lastExplanation_le

/-- Acknowledgements, over every run against an honest ledger. Every acknowledgement was right
when it was inserted: its range starts at the top of the one before and ends in the ledger, and
its count and digest are those of the explanations in it. So the tops increase. The store's
frontier never falls and is at most the durable frontier, every explanation at or below it is in
exactly one acknowledged set, and the acknowledgement of a snapshot covers nothing that was
committed after the snapshot was taken. -/
theorem run_tiles_explanations {limits : Limits} {address : LedgerId} {rows : Rows}
    (hrows : rows.Tiled digest)
    (hbefore : Run (Store.BooksStep (honest digest)) (Core.new limits address, rows) before middle)
    (hafter : Run (Store.BooksStep (honest digest)) middle after last) :
    last.2.Tiled digest ∧
    (∀ pre set nonce mid later nonce' post,
      last.2 = pre ++ .acknowledgement set nonce :: (mid ++ .acknowledgement later nonce' :: post) →
      set.top < later.top ∧ ((∀ row ∈ mid, row.ackTop? = none) → later.frontier = set.top)) ∧
    middle.1.frontier ≤ last.1.frontier ∧ last.1.frontier ≤ last.2.durableFrontier ∧
    (∀ explanation ∈ last.2.explanations 0 last.1.frontier, ∃! i, last.2.Covers i explanation) ∧
    ∀ label ∈ before, ∀ snapshot, label.Takes snapshot →
      ∀ i nonce, last.2[i]? = some (.acknowledgement snapshot.set nonce) →
        ∀ explanation, last.2.Covers i explanation → explanation.1 ≤ middle.2.length := by
  have hlast : Tiling digest last := Store.run_invariant (hbefore.append hafter)
    (fun hs hmove => hs.step hmove) ⟨(Core.new_sound limits address).1, hrows, Nat.zero_le _⟩
  refine ⟨hlast.rows, fun pre set nonce mid later nonce' post heq => ?_, ?_, hlast.frontier,
    fun explanation hmem => ?_, fun label hlabel snapshot htakes i nonce hget explanation hi => ?_⟩
  · have htiled := heq ▸ hlast.rows
    have htile := hlast.rows (pre ++ .acknowledgement set nonce :: mid) later nonce' post
      (by simp [heq])
    exact ⟨Nat.lt_of_le_of_lt htiled.top_le htile.lt, fun hmid => htiled.frontier_eq hmid⟩
  · exact Store.run_relates (fun s t => s.1.frontier ≤ t.1.frontier) (fun _ => Nat.le_refl _)
      Nat.le_trans Move.Step.frontier_mono hafter
  · obtain ⟨hpos, hle, hrow⟩ := Rows.mem_explanations.mp hmem
    obtain ⟨i, hi⟩ := hlast.rows.exists_covers
      (Rows.mem_explanations.mpr ⟨hpos, Nat.le_trans hle hlast.frontier, hrow⟩)
    exact ⟨i, hi, fun j hj => hlast.rows.covers_unique hj hi⟩
  · obtain ⟨set, nonce', hget', hmem⟩ := hi
    cases hget.symm.trans hget'
    obtain ⟨_, _, source, target, -, -, hstep, hrest⟩ := hbefore.of_mem hlabel
    calc explanation.1 ≤ snapshot.set.top := (Rows.mem_explanations.mp hmem).2.1
      _ ≤ target.2.length := hstep.takes htakes
      _ ≤ middle.2.length := (labels_grow hrest).length_le

/-- A ledger with an explanation, its acknowledgement, and one more explanation. -/
def twoExplanations : Rows := [.explanation ⟨1, 1⟩ ⟨.identityContent 1 ⟨1, 2⟩ 1⟩,
  .acknowledgement ⟨0, 1, 1, 1, 0⟩ 0, .explanation ⟨2, 1⟩ ⟨.identityContent 2 ⟨1, 2⟩ 1⟩]

/-- The set of the explanation that is not acknowledged. -/
def secondSet : SetFacts := Rows.survey (fun _ => 0) twoExplanations

/-- The set of the second explanation is shown and acknowledged: it starts at the top of the first,
and each explanation is in exactly one acknowledged set. -/
theorem run_tiles_explanations_of_two :
    let rows := twoExplanations ++ [.acknowledgement secondSet 1]
    secondSet.frontier = 1 ∧ (rows.explanations 0 3).length = 2 ∧
      ∀ explanation ∈ rows.explanations 0 3, ∃! i, rows.Covers i explanation := by
  have htaken : Store.BooksStep (honest fun _ => 0) (.opened ⟨1, 1⟩ 0, twoExplanations)
      ⟨.snapshot 1, [⟨.survey, some (.got secondSet)⟩],
        some (.snapshot (.taken ⟨0, secondSet, 1⟩)), none⟩
      (.opened ⟨1, 1⟩ 0, twoExplanations) :=
    ⟨_, .none, ⟨_, .answer ⟨rfl, rfl⟩ (.ret _ _ _), rfl, rfl, rfl⟩, rfl⟩
  have hacked : Store.BooksStep (honest fun _ => 0) (.opened ⟨1, 1⟩ 0, twoExplanations)
      ⟨.appendAcknowledgement ⟨0, secondSet, 1⟩, [⟨.open, some (.got ())⟩,
        ⟨.recheck 1 3, some (.got secondSet)⟩, ⟨.insertAck ⟨0, secondSet, 1⟩, some (.inserted 4)⟩,
        ⟨.commit, some .durable⟩], some (.acknowledgement (.committed 3)), none⟩
      ({ (Core.opened ⟨1, 1⟩ 0).spend .u with frontier := 3 },
        twoExplanations ++ [.acknowledgement secondSet 1]) :=
    ⟨_, .none, ⟨_, .answer ⟨trivial, rfl⟩ (.answer ⟨rfl, rfl⟩ (.answer ⟨nofun, rfl⟩
      (.answer rfl (.ret _ _ _)))), rfl, rfl, rfl⟩, rfl⟩
  have htiled : twoExplanations.Tiled fun _ => 0 := by
    rintro pre set nonce post heq
    -- the one acknowledgement stands behind the first explanation
    rcases pre with _ | ⟨first, _ | ⟨second, _ | ⟨third, rest⟩⟩⟩ <;> simp [twoExplanations] at heq
    obtain ⟨rfl, ⟨rfl, -⟩, -⟩ := heq
    exact ⟨rfl, by decide, by decide, rfl, rfl⟩
  have hrun := run_tiles_explanations htiled
    (.cons (.sessionOpened (honest fun _ => 0) ⟨1, 1⟩ 0 _) (.single htaken)) (.single hacked)
  refine ⟨(hrun.2.1 [_] ⟨0, 1, 1, 1, 0⟩ 0 [_] secondSet 1 [] rfl).2 (by simp [LedgerRow.ackTop?]),
    rfl, hrun.2.2.2.2.1⟩

end NexusOs.Ledger
