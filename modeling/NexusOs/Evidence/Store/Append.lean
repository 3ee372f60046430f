import NexusOs.Evidence.Store

/-!
# What an append does

The cases of an append (`Appended`), what the file always keeps (`Numbered`, `Once`), and that a
process that is not latched knows exactly what its file holds (`Current`).
-/

namespace NexusOs.Evidence

open Utf8 List Inner

/-! ## One append -/

variable {content : Content} {disk : Disk} {result : Append} {seq : Nat}

/-- The process after a row was committed. -/
def Inner.committed (s : Inner) (c : Codec) (disk : Disk) (content : Content) : Inner :=
  { s with
    conn := s.conn ++ [s.nextRow c disk content]
    known := s.known.take (s.lastSeq + 1) content
    lastSeq := s.lastSeq + 1
    lastTag := (s.nextRow c disk content).tag }

/-- The constraints of the table admit the row of an append. -/
structure Admissible (s : Inner) (content : Content) : Prop where
  fresh : ∀ row ∈ s.conn, row.seq ≠ toI64 (s.lastSeq + 1)
  once : s.breaksOnce content = false

/-- What an append of `content` comes to, and what it leaves, on disks that are `D`. -/
inductive Appended (c : Codec) (D : Disk → Prop) (s : Inner) (content : Content) :
    Append → Inner → Prop where
  | latched : s.isLatched = true → Appended c D s content .latched s
  | committed (disk : Disk) : D disk → s.isLatched = false → s.lastSeq + 1 < 2 ^ 64 →
      Admissible s content →
      Appended c D s content (.committed (s.lastSeq + 1)) (s.committed c disk content)
  | present {row : Row} : s.isLatched = false → content.phase.onceOnly = true → row ∈ s.conn →
      row.toContent = content → Appended c D s content (.alreadyPresent row.seq) s
  | notCommitted : s.isLatched = false → Appended c D s content .notCommitted s
  | lost {result : Append} : s.isLatched = false →
      result ∈ [Append.uncertain, .conflict, .latched] → Appended c D s content result s.latch
  | kept (disk : Disk) : D disk → s.isLatched = false → s.lastSeq + 1 < 2 ^ 64 →
      Admissible s content →
      Appended c D s content .uncertain
        { s.latch with conn := s.conn ++ [s.nextRow c disk content] }

variable {D : Disk → Prop} {s : Inner} {c : Codec}

theorem appended_already (c : Codec) (disk : Disk) (hopen : s.isLatched = false)
    (honce : content.phase.onceOnly = true) :
    Appended c D s content (s.already c disk content).1 (s.already c disk content).2 := by
  unfold already
  split
  · rename_i row _ hsame
    split
    · exact .lost hopen (by simp)
    split
    · have hrow : row ∈ s.sameOnce content := hsame ▸ mem_cons_self
      obtain ⟨hmem, hcolumns⟩ := mem_filter.mp hrow
      refine .present hopen honce hmem ?_
      obtain ⟨content', seq, session, storedMs, prev, tag⟩ := row
      obtain ⟨phase, commitment, body⟩ := content'
      simp_all
    · exact .lost hopen (by simp)
  · exact .lost hopen (by simp)

theorem appended (c : Codec) (hD : D disk) (content : Content) (s : Inner) :
    Appended c D s content (s.append c disk content).1 (s.append c disk content).2 := by
  unfold append
  by_cases hlatched : s.isLatched = true
  · rw [if_pos hlatched]
    exact .latched hlatched
  have hopen : s.isLatched = false := by simpa using hlatched
  rw [if_neg hlatched]
  dsimp only
  split
  · exact .lost hopen (by simp)
  split
  · split
    · exact .notCommitted hopen
    · exact .lost hopen (by simp)
  · split
    · split
      · exact .notCommitted hopen
      · exact .lost hopen (by simp)
    · split
      · exact .lost hopen (by simp)
      rename_i hfresh
      split
      · split
        · rename_i hbreaks _
          simp only [breaksOnce, Bool.and_eq_true] at hbreaks
          exact appended_already c disk hopen hbreaks.1.1
        · exact .lost hopen (by simp)
      · rename_i honce
        have hadmissible : Admissible s content := by
          refine ⟨fun row hrow hseq => hfresh ?_, by simpa using honce⟩
          exact any_eq_true.mpr ⟨row, hrow, decide_eq_true hseq⟩
        split
        · rename_i kept _
          cases kept with
          | true => exact .kept disk hD hopen (by omega) hadmissible
          | false => exact .lost hopen (by simp)
        · exact .committed disk hD hopen (by omega) hadmissible

/-! ## The file -/

/-- The rows of a file are numbered from 1. -/
def Numbered (rows : List Row) : Prop := ∀ (i : Nat) row, rows[i]? = some row → row.seq = i + 1

/-- The index `record_once`: a once-only phase of a commitment has one row. -/
def Once (rows : List Row) : Prop :=
  rows.Pairwise fun a b => ¬(b.phase.onceOnly = true ∧ b.commitment.isSome = true ∧
    a.phase = b.phase ∧ a.commitment = b.commitment)

/-- What the process knows, unless latched: what its file holds. -/
structure Current (s : Inner) : Prop where
  last : s.lastSeq = s.conn.length
  known : s.known = s.conn.foldl (fun k row => k.take row.seq row.toContent) Known.none

/-- The state of every process: its rows are numbered, and it knows its file if not latched. -/
structure Valid (s : Inner) : Prop where
  numbered : Numbered s.conn
  current : s.isLatched = false → Current s

/-- The next row of a process that knows its file is numbered on. -/
theorem Valid.seq_nextRow (hs : Valid s) (hopen : s.isLatched = false) (h : Admissible s content) :
    toI64 (s.lastSeq + 1) = s.lastSeq + 1 := by
  have hlast := (hs.current hopen).last
  by_contra hne
  -- past the largest number the row with the largest number is in the way
  have hlarge : 2 ^ 63 - 1 < s.lastSeq + 1 := by
    simp only [toI64] at hne
    omega
  have hbound : 2 ^ 63 - 2 < s.conn.length := by omega
  have hrow := hs.numbered _ _ (List.getElem?_eq_getElem hbound)
  refine h.fresh _ (getElem_mem hbound) ?_
  simp only [toI64]
  omega

/-- The row an append lets in is numbered on. -/
theorem Valid.numbered_snoc (hs : Valid s) (hopen : s.isLatched = false)
    (h : Admissible s content) : Numbered (s.conn ++ [s.nextRow c disk content]) := by
  intro i row hrow
  rcases Nat.lt_or_ge i s.conn.length with hi | hi
  · rw [List.getElem?_append_left hi] at hrow
    exact hs.numbered i row hrow
  rw [List.getElem?_append_right hi] at hrow
  obtain ⟨hzero, heq⟩ := List.getElem?_eq_some_iff.mp hrow
  have hlast := (hs.current hopen).last
  have hseq := hs.seq_nextRow hopen h
  simp only [length_singleton] at hzero
  simp only [getElem_singleton] at heq
  rw [← heq]
  simp only [nextRow]
  omega

/-- The row an append lets in keeps the index. -/
theorem Once.snoc (hs : Once s.conn) (h : Admissible s content) :
    Once (s.conn ++ [s.nextRow c disk content]) := by
  rw [Once, pairwise_append]
  refine ⟨hs, pairwise_singleton .., fun a ha b hb hsame => ?_⟩
  obtain rfl := mem_singleton.mp hb
  obtain ⟨hphase, hcommitment, heqPhase, heqCommitment⟩ := hsame
  have honce := h.once
  have hmem : a ∈ s.sameOnce content := by
    simpa [sameOnce, ha] using ⟨heqCommitment, heqPhase⟩
  simp only [breaksOnce, Bool.and_eq_false_iff, decide_eq_false_iff_not] at honce
  rcases honce with (honce | honce) | honce
  · exact absurd hphase (by simpa [nextRow] using honce)
  · exact absurd hcommitment (by simpa [nextRow] using honce)
  · exact honce (ne_nil_of_mem hmem)

variable {s' : Inner}

/-- An append keeps the process valid. -/
theorem Appended.valid (h : Appended c D s content result s') (hs : Valid s) : Valid s' := by
  cases h with
  | latched | present | notCommitted => exact hs
  | lost => exact ⟨hs.numbered, by simp [latch]⟩
  | kept disk _ hopen _ hadmissible =>
    exact ⟨hs.numbered_snoc hopen hadmissible, by simp [latch]⟩
  | committed disk _ hopen _ hadmissible =>
    obtain ⟨hlast, hknown⟩ := hs.current hopen
    refine ⟨hs.numbered_snoc hopen hadmissible, fun _ => ⟨?_, ?_⟩⟩
    · simp [Inner.committed, hlast]
    · have hseq := hs.seq_nextRow hopen hadmissible
      simp [Inner.committed, hknown, Inner.nextRow, hseq]

/-- An append keeps the index. -/
theorem Appended.once (h : Appended c D s content result s') (hs : Once s.conn) : Once s'.conn := by
  cases h with
  | latched | present | notCommitted | lost => exact hs
  | kept _ _ _ _ hadmissible | committed _ _ _ _ hadmissible => exact hs.snoc hadmissible

/-- A change of the records owed keeps the process valid. -/
theorem Valid.withOwed (hs : Valid s) (owed : List Owed) : Valid { s with owed := owed } :=
  ⟨hs.numbered, fun hopen => ⟨(hs.current hopen).last, (hs.current hopen).known⟩⟩

/-- An append adds at most one row, of the content it is given. -/
theorem Appended.rows (h : Appended c D s content result s') :
    s'.conn = s.conn ∨ ∃ row : Row, row.toContent = content ∧ s'.conn = s.conn ++ [row] := by
  cases h with
  | latched | present | notCommitted | lost => exact .inl rfl
  | committed disk | kept disk => exact .inr ⟨s.nextRow c disk content, rfl, rfl⟩

/-- An append changes neither the records owed nor the names of store and session. -/
theorem Appended.same (h : Appended c D s content result s') :
    s'.owed = s.owed ∧ s'.store = s.store ∧ s'.session = s.session := by
  cases h <;> exact ⟨rfl, rfl, rfl⟩

/-- Row `seq` holds exactly `content`. -/
def Holds (rows : List Row) (seq : Nat) (content : Content) : Prop :=
  0 < seq ∧ (rows[seq - 1]?).map Row.toContent = some content

theorem Holds.of_mem {rows : List Row} {row : Row} (hrows : Numbered rows) (hrow : row ∈ rows) :
    Holds rows row.seq row.toContent := by
  obtain ⟨i, hi, rfl⟩ := mem_iff_getElem.mp hrow
  have hseq := hrows i _ (List.getElem?_eq_getElem hi)
  refine ⟨by omega, ?_⟩
  rw [hseq, Nat.add_sub_cancel, List.getElem?_eq_getElem hi, Option.map_some]

theorem Holds.mono {rows rows' : List Row} (h : Holds rows seq content) (hle : rows <+: rows') :
    Holds rows' seq content := by
  obtain ⟨hpos, hrow⟩ := h
  obtain ⟨row, hget, hcontent⟩ := Option.map_eq_some_iff.mp hrow
  refine ⟨hpos, ?_⟩
  obtain ⟨rest, rfl⟩ := hle
  rw [List.getElem?_append_left (List.getElem?_eq_some_iff.mp hget).1, hget, Option.map_some,
    hcontent]

/-- The number an append answers is that of a row with the content. -/
theorem Appended.holds (h : Appended c D s content result s') (hs : Valid s)
    (hresult : result = .committed seq ∨ result = .alreadyPresent seq) :
    Holds s'.conn seq content := by
  have hs' := h.valid hs
  cases h with
  | latched | notCommitted => simp at hresult
  | lost _ hmem => rcases hresult with rfl | rfl <;> simp at hmem
  | kept => simp at hresult
  | committed disk _ hopen _ hadmissible =>
    obtain rfl : s.lastSeq + 1 = seq := by simpa using hresult
    have hseq := hs.seq_nextRow hopen hadmissible
    have hrow : s.nextRow c disk content ∈ (s.committed c disk content).conn := by
      simp [Inner.committed]
    have hholds := Holds.of_mem hs'.numbered hrow
    simpa [nextRow, hseq] using hholds
  | present _ _ hrow hcontent =>
    obtain rfl : Row.seq _ = seq := by simpa using hresult
    exact hcontent ▸ Holds.of_mem hs.numbered hrow

end NexusOs.Evidence
