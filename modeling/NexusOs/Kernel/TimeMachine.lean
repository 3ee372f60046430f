import NexusOs.Lib.Table
import NexusOs.Lib.Transition

/-!
# The undo history

`TimeMachine` of `time_machine.rs`. An undone checkpoint stays in the history, and `redo` pushes a
copy beside it; a commit takes the caller's checkpoint as it is, its mark included.
`history_holds_each_once` says that only a redo, or a commit of what is marked undone, spoils the
history. Ids, the recorded changes and what `replay_files` does with them are any. Beside the
source's data a state notes for each id whether the last successful operation on it was an undo.
-/

namespace NexusOs.Kernel

open Transition List

variable {ι δ : Type}

/-! ## Operations -/

/-- `Checkpoint`, without the fields that are only shown. -/
structure Checkpoint (ι δ : Type) where
  id : ι
  changes : δ
  undone : Bool

/-- `TimeMachineError`, as far as these operations return it. -/
inductive TimeMachineError where
  | emptyHistory
  | nothingToRedo
  | checkpointNotFound
  | alreadyUndone
  | filesRefused

/-- What `replay_files` does: the changes that it leaves, also where it fails. -/
structure Replay (δ : Type) where
  changes : δ → δ
  succeeds : Bool

/-- `TimeMachine`; the last entry of `redo_stack` stands first. -/
structure TimeMachine (ι δ : Type) where
  maxCheckpoints : Nat
  checkpoints : List (Checkpoint ι δ) := []
  redoStack : List (Checkpoint ι δ) := []
  lastUndone : Table ι Bool := .empty

/-- An operation on the history. -/
inductive HistoryAct (ι δ : Type) where
  | commit (checkpoint : Checkpoint ι δ)
  | undo (replay : Replay δ)
  | redo (replay : Replay δ)
  | undoCheckpoint (id : ι) (replay : Replay δ)

/-- Replacing a checkpoint by one of the same id keeps the ids. -/
theorem map_id_set {l : List (Checkpoint ι δ)} {c c' : Checkpoint ι δ} {i : Nat}
    (hc : l[i]? = some c) (hid : c'.id = c.id) :
    (l.set i c').map Checkpoint.id = l.map Checkpoint.id := by
  obtain ⟨hlt, hget⟩ := List.getElem?_eq_some_iff.mp hc
  rw [map_set, hid, ← hget, ← getElem_map Checkpoint.id, set_getElem_self]
  simpa using hlt

namespace TimeMachine

variable [DecidableEq ι]

/-- `commit_checkpoint`: the oldest checkpoints over capacity go, and are counted. -/
def commitCheckpoint (m : TimeMachine ι δ) (checkpoint : Checkpoint ι δ) :
    (ι × Nat) × TimeMachine ι δ :=
  let all := m.checkpoints ++ [checkpoint]
  let evicted := all.length - m.maxCheckpoints
  ((checkpoint.id, evicted), { m with
    checkpoints := all.drop evicted
    redoStack := []
    lastUndone := m.lastUndone.insert checkpoint.id false })

/-- What `undo_with` and `undo_checkpoint_with` do with the checkpoint that they find. -/
def undoAt (m : TimeMachine ι δ) (c : Checkpoint ι δ) (i : Nat) (replay : Replay δ) :
    Except TimeMachineError (Checkpoint ι δ) × TimeMachine ι δ :=
  let c := { c with changes := replay.changes c.changes }
  if replay.succeeds then
    let c := { c with undone := true }
    (.ok c, { m with
      checkpoints := m.checkpoints.set i c
      lastUndone := m.lastUndone.insert c.id true })
  else (.error .filesRefused, { m with checkpoints := m.checkpoints.set i c })

/-- `undo_with`. -/
def undo (m : TimeMachine ι δ) (replay : Replay δ) :
    Except TimeMachineError (Checkpoint ι δ) × TimeMachine ι δ :=
  match m.checkpoints.zipIdx.reverse.find? fun e => !e.1.undone with
  | none => (.error .emptyHistory, m)
  | some (c, i) =>
    match m.undoAt c i replay with
    | (.ok c, m) => (.ok c, { m with redoStack := c :: m.redoStack })
    | (.error error, m) => (.error error, m)

/-- `redo_with`. -/
def redo (m : TimeMachine ι δ) (replay : Replay δ) :
    Except TimeMachineError (Checkpoint ι δ) × TimeMachine ι δ :=
  match m.redoStack with
  | [] => (.error .nothingToRedo, m)
  | c :: rest =>
    let c := { c with changes := replay.changes c.changes }
    if replay.succeeds then
      let c := { c with undone := false }
      (.ok c, { m with
        checkpoints := m.checkpoints ++ [c]
        redoStack := rest
        lastUndone := m.lastUndone.insert c.id false })
    else (.error .filesRefused, { m with redoStack := c :: rest })

/-- `undo_checkpoint_with`. -/
def undoCheckpoint (m : TimeMachine ι δ) (id : ι) (replay : Replay δ) :
    Except TimeMachineError (Checkpoint ι δ) × TimeMachine ι δ :=
  match m.checkpoints.zipIdx.find? fun e => e.1.id = id with
  | none => (.error .checkpointNotFound, m)
  | some (c, i) => if c.undone then (.error .alreadyUndone, m) else m.undoAt c i replay

/-- The history after an operation. -/
def next (m : TimeMachine ι δ) : HistoryAct ι δ → TimeMachine ι δ
  | .commit checkpoint => (m.commitCheckpoint checkpoint).2
  | .undo replay => (m.undo replay).2
  | .redo replay => (m.redo replay).2
  | .undoCheckpoint id replay => (m.undoCheckpoint id replay).2

/-! ## What is claimed of it -/

/-- What is committed has an id of its own. -/
def Fresh (m : TimeMachine ι δ) : HistoryAct ι δ → Prop
  | .commit checkpoint => m.lastUndone.get? checkpoint.id = none
  | _ => True

/-- Nothing is redone (there is nothing to redo, or its files are refused), and nothing that is
marked undone is committed to a history that keeps it. -/
def Orderly (m : TimeMachine ι δ) : HistoryAct ι δ → Prop
  | .commit checkpoint => checkpoint.undone = false ∨ m.maxCheckpoints = 0
  | .redo replay => m.redoStack = [] ∨ replay.succeeds = false
  | _ => True

/-- The history holds each checkpoint once and not too many, marks as undone those whose last
operation was an undo, and does not refuse to undo the others as already undone. -/
structure Sound (m : TimeMachine ι δ) : Prop where
  once : (m.checkpoints.map Checkpoint.id).Nodup
  kept : m.checkpoints.length ≤ m.maxCheckpoints
  marked : ∀ c ∈ m.checkpoints, m.lastUndone.get? c.id = some c.undone
  undoes : ∀ c ∈ m.checkpoints, m.lastUndone.get? c.id = some false →
    ∀ replay, (m.undoCheckpoint c.id replay).1 ≠ .error .alreadyUndone

/-- The same without the last, which follows; and what may be redone is in the history. -/
structure Inv (m : TimeMachine ι δ) : Prop where
  once : (m.checkpoints.map Checkpoint.id).Nodup
  kept : m.checkpoints.length ≤ m.maxCheckpoints
  marked : ∀ c ∈ m.checkpoints, m.lastUndone.get? c.id = some c.undone
  redo : ∀ c ∈ m.redoStack, c.id ∈ m.checkpoints.map Checkpoint.id

variable {m : TimeMachine ι δ} {c : Checkpoint ι δ} {i : Nat} {replay : Replay δ} {id : ι}

/-- The checkpoint that `undo_checkpoint` finds is marked as its last operation says. -/
theorem Inv.sound (h : m.Inv) : m.Sound where
  once := h.once
  kept := h.kept
  marked := h.marked
  undoes c _ hlast replay := by
    unfold undoCheckpoint
    split
    · exact nofun
    next found i hfind =>
    have hid : found.id = c.id := by simpa using find?_some hfind
    have hmark := h.marked found (fst_mem_of_mem_zipIdx (mem_of_find?_eq_some hfind))
    rw [hid, hlast] at hmark
    rw [if_neg (by simp [← Option.some.inj hmark])]
    unfold undoAt
    split <;> exact nofun

/-- Replacing a checkpoint by one of the same id that is marked right keeps the invariant. -/
theorem Inv.set (h : m.Inv) {c' : Checkpoint ι δ} {last : Table ι Bool}
    (hc : m.checkpoints[i]? = some c) (hid : c'.id = c.id) (hmark : last.get? c.id = some c'.undone)
    (hlast : ∀ id, id ≠ c.id → last.get? id = m.lastUndone.get? id) :
    Inv { m with checkpoints := m.checkpoints.set i c', lastUndone := last } where
  once := by
    rw [map_id_set hc hid]
    exact h.once
  kept := by
    rw [length_set]
    exact h.kept
  marked d hd := by
    obtain ⟨j, hj⟩ := mem_iff_getElem?.mp hd
    by_cases hij : i = j
    · rw [← hij, getElem?_set_self (List.getElem?_eq_some_iff.mp hc).1] at hj
      cases hj
      rw [hid, hmark]
    · rw [getElem?_set_ne hij] at hj
      -- no other checkpoint has this id
      have hne : d.id ≠ c.id := by
        intro hsame
        have hids : (m.checkpoints.map Checkpoint.id)[j]? =
            (m.checkpoints.map Checkpoint.id)[i]? := by
          rw [getElem?_map, getElem?_map, hj, hc, Option.map_some, Option.map_some, hsame]
        have hlt : j < (m.checkpoints.map Checkpoint.id).length := by
          simpa using (List.getElem?_eq_some_iff.mp hj).1
        exact hij ((getElem?_inj hlt h.once).mp hids).symm
      rw [hlast _ hne]
      exact h.marked d (mem_of_getElem? hj)
  redo d hd := by
    rw [map_id_set hc hid]
    exact h.redo d hd

/-- Undoing a checkpoint of the history keeps the invariant, and gives one of the history. -/
theorem Inv.undoAt (h : m.Inv) (hc : m.checkpoints[i]? = some c) (replay : Replay δ) :
    (m.undoAt c i replay).2.Inv ∧ ∀ d, (m.undoAt c i replay).1 = .ok d →
      d.id ∈ (m.undoAt c i replay).2.checkpoints.map Checkpoint.id := by
  unfold TimeMachine.undoAt
  split
  · refine ⟨h.set hc rfl (by simp) fun id hne => by simp [hne], ?_⟩
    intro d hd
    cases hd
    exact mem_map_of_mem (mem_set (List.getElem?_eq_some_iff.mp hc).1 _)
  · refine ⟨h.set hc rfl (h.marked c (mem_of_getElem? hc)) fun id _ => rfl, ?_⟩
    intro d hd
    cases hd

theorem Inv.undo (h : m.Inv) : (m.undo replay).2.Inv := by
  unfold TimeMachine.undo
  split
  · exact h
  next c i hfind =>
  have hmem : (c, i) ∈ m.checkpoints.zipIdx := mem_reverse.mp (mem_of_find?_eq_some hfind)
  obtain ⟨hafter, hredo⟩ := h.undoAt (mem_zipIdx_iff_getElem?.mp hmem) replay
  generalize m.undoAt c i replay = result at hafter hredo ⊢
  obtain ⟨answer, m'⟩ := result
  cases answer with
  | error => exact hafter
  | ok d => exact { hafter with redo := forall_mem_cons.mpr ⟨hredo d rfl, hafter.redo⟩ }

theorem Inv.undoCheckpoint (h : m.Inv) : (m.undoCheckpoint id replay).2.Inv := by
  unfold TimeMachine.undoCheckpoint
  split
  · exact h
  next c i hfind =>
  split
  · exact h
  · exact (h.undoAt (mem_zipIdx_iff_getElem?.mp (mem_of_find?_eq_some hfind)) replay).1

/-- A history that keeps anything keeps what was committed last. -/
theorem mem_commitCheckpoint (hmax : m.maxCheckpoints ≠ 0) :
    c ∈ (m.commitCheckpoint c).2.checkpoints := by
  show c ∈ drop _ (m.checkpoints ++ [c])
  rw [drop_append_of_le_length]
  · exact mem_append_right _ (mem_singleton_self c)
  · rw [length_append, length_singleton]
    omega

/-- A commit under a new id, of what is not marked undone, keeps the invariant. -/
theorem Inv.commitCheckpoint (h : m.Inv) (hfresh : m.lastUndone.get? c.id = none)
    (horderly : c.undone = false ∨ m.maxCheckpoints = 0) : (m.commitCheckpoint c).2.Inv where
  once := by
    refine .sublist ((drop_sublist _ _).map _) ?_
    have hnew : c.id ∉ m.checkpoints.map Checkpoint.id := by
      intro hmem
      obtain ⟨d, hd, hid⟩ := mem_map.mp hmem
      rw [← hid, h.marked d hd] at hfresh
      cases hfresh
    rw [map_append, map_singleton, ← concat_eq_append]
    exact h.once.concat hnew
  kept := by
    show (drop _ _).length ≤ m.maxCheckpoints
    rw [length_drop]
    omega
  marked d hd := by
    show (m.lastUndone.insert c.id false).get? d.id = _
    rw [Table.get?_insert]
    rcases mem_append.mp (mem_of_mem_drop hd) with hold | hnew
    · have hmark := h.marked d hold
      rw [if_neg (by intro hid; rw [hid, hfresh] at hmark; cases hmark)]
      exact hmark
    · rcases horderly with hundone | hmax
      · rw [mem_singleton.mp hnew, if_pos rfl, hundone]
      · -- a history that keeps nothing does not hold it either
        simp [TimeMachine.commitCheckpoint, hmax] at hd
  redo := nofun

/-- An operation keeps the history sound exactly if it is orderly. -/
theorem Inv.next (h : m.Inv) {a : HistoryAct ι δ} (hfresh : m.Fresh a) :
    (m.Orderly a → (m.next a).Inv) ∧ ((m.next a).Sound → m.Orderly a) := by
  cases a with
  | commit c =>
    refine ⟨fun horderly => h.commitCheckpoint hfresh horderly, fun hsound => ?_⟩
    by_contra hnot
    obtain ⟨hundone, hmax⟩ := not_or.mp hnot
    have hmark := hsound.marked c (mem_commitCheckpoint hmax)
    simp [TimeMachine.next, TimeMachine.commitCheckpoint, Ne.symm hundone] at hmark
  | undo replay => exact ⟨fun _ => h.undo, fun _ => trivial⟩
  | undoCheckpoint id replay => exact ⟨fun _ => h.undoCheckpoint, fun _ => trivial⟩
  | redo replay =>
    simp only [TimeMachine.next, TimeMachine.redo, Orderly]
    cases hstack : m.redoStack with
    | nil => exact ⟨fun _ => h, fun _ => .inl rfl⟩
    | cons c rest =>
      have hredo := h.redo
      rw [hstack] at hredo
      obtain ⟨hc, hrest⟩ := forall_mem_cons.mp hredo
      cases replay.succeeds with
      | false =>
        refine ⟨fun _ => ?_, fun _ => .inr rfl⟩
        exact { h with redo := forall_mem_cons.mpr ⟨hc, hrest⟩ }
      | true =>
        refine ⟨fun horderly => by simp at horderly, fun hsound => ?_⟩
        -- the undone checkpoint is still in the history, so its copy is the second of its id
        have honce := hsound.once
        simp only [if_true, map_append, map_singleton] at honce
        exact absurd rfl ((nodup_append.mp honce).2.2 _ hc _ (mem_singleton_self _))

/-- An orderly operation, which commits only under an id of its own. -/
def Step (m : TimeMachine ι δ) (a : HistoryAct ι δ) (m' : TimeMachine ι δ) : Prop :=
  m.Fresh a ∧ m.Orderly a ∧ m.next a = m'

end TimeMachine

open TimeMachine

/-- As long as every operation is orderly the history is sound, and the next operation keeps it so
exactly if it is orderly too. -/
theorem history_holds_each_once [DecidableEq ι] {maxCheckpoints : Nat} {m : TimeMachine ι δ}
    {acts : List (HistoryAct ι δ)} (h : Run Step { maxCheckpoints } acts m) :
    m.Sound ∧ ∀ a, m.Fresh a → ((m.next a).Sound ↔ m.Orderly a) := by
  have hinv : m.Inv := by
    refine h.invariant (fun hs hstep => hstep.2.2 ▸ (hs.next hstep.1).1 hstep.2.1) ?_
    exact ⟨nodup_nil, Nat.zero_le _, nofun, nofun⟩
  refine ⟨hinv.sound, fun a hfresh => ⟨(hinv.next hfresh).2, fun horderly => ?_⟩⟩
  exact ((hinv.next hfresh).1 horderly).sound

/-- A replay of no files. -/
def noFiles : Replay Unit := ⟨id, true⟩

theorem history_holds_each_once_of_undo :
    ∃ m : TimeMachine Nat Unit,
      Run Step { maxCheckpoints := 1 }
        [.commit ⟨1, (), false⟩, .commit ⟨2, (), false⟩, .undo noFiles] m ∧
        m.checkpoints = [⟨2, (), true⟩] ∧ m.Sound := by
  have hrun : Run Step { maxCheckpoints := 1 }
      [.commit ⟨1, (), false⟩, .commit ⟨2, (), false⟩, .undo noFiles] (_ : TimeMachine Nat Unit) :=
    .cons ⟨rfl, .inl rfl, rfl⟩ (.cons ⟨rfl, .inl rfl, rfl⟩ (.cons ⟨trivial, trivial, rfl⟩ (.nil _)))
  exact ⟨_, hrun, rfl, (history_holds_each_once hrun).1⟩

/-- After a commit, an undo and a redo the history holds the checkpoint twice, more than it may
keep, and refuses to undo it again. -/
theorem redo_holds_twice :
    let m := ((({ maxCheckpoints := 1 } : TimeMachine Nat Unit).next (.commit ⟨1, (), false⟩)).next
      (.undo noFiles)).next (.redo noFiles)
    m.checkpoints = [⟨1, (), true⟩, ⟨1, (), false⟩] ∧
      (m.undoCheckpoint 1 noFiles).1 = .error .alreadyUndone ∧ ¬m.Sound := by
  refine ⟨rfl, rfl, fun hsound => ?_⟩
  exact absurd hsound.kept (by decide)

end NexusOs.Kernel
