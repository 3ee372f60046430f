import NexusOs.CodingRun.Manifest
import NexusOs.Lib.UnifiedDiff

/-!
# The review of a candidate

`coding_run/review.rs`: the line operations between two texts, their unified diff cut at a limit,
and the bounded diffs of a whole review. The texts of a diff are written by `Lib/UnifiedDiff`. What
a review binds and the verification it shows are left out.
-/

namespace NexusOs.CodingRun

open Framing Utf8 UnifiedDiff

/-- `MAX_DIFF_FILE_BYTES`. -/
def maxDiffFileBytes : Nat := 256 * 1024

/-- `MAX_DIFF_BYTES_PER_FILE`. -/
def maxDiffBytesPerFile : Nat := 64 * 1024

/-- `MAX_DIFF_BYTES_TOTAL`. -/
def maxDiffBytesTotal : Nat := 512 * 1024

/-- `MAX_LCS_CELLS`. -/
def maxLcsCells : Nat := 2000000

/-- `CONTEXT_LINES`. -/
def contextLines : Nat := 3

/-! ## Line operations -/

/-- `Op`. -/
abbrev Op := UnifiedDiff.Sign

/-- An operation, with the lines of the old and the new text before it. -/
structure LineOp where
  op : Op
  old : Nat
  new : Nat
  deriving DecidableEq

variable (a b : List Text)

/-- The number of lines that two lists have in common at their start. -/
def common : Nat := ((a.zip b).takeWhile fun p => p.1 = p.2).length

/-- The row of the table for a line `x` of the old text, from its last cell on, over the row
`below`. -/
def lcsRow (x : Text) : List Text → List Nat → List Nat
  | [], _ => [0]
  | y :: ys, below =>
    let right := lcsRow x ys below.tail
    (if x = y then below.tail.headD 0 + 1 else max (below.headD 0) (right.headD 0)) :: right

/-- The table `lcs`, from the last row on. A u32 holds its numbers, which are at most the number of
lines. -/
def lcsTable (b : List Text) : List Text → List (List Nat)
  | [] => [List.replicate (b.length + 1) 0]
  | x :: a =>
    let below := lcsTable b a
    lcsRow x b (below.headD []) :: below

/-- `lcs[at(i, j)]`. -/
def cell (table : List (List Nat)) (i j : Nat) : Nat := (table.getD i []).getD j 0

/-- The loop over the table, from the cell `(i, j)` on, in at most so many rounds. -/
def walk (a b : List Text) (table : List (List Nat)) (offset : Nat) : Nat → Nat → Nat → List LineOp
  | 0, _, _ => []
  | fuel + 1, i, j =>
    if i < a.length ∨ j < b.length then
      if i < a.length ∧ j < b.length ∧ a[i]? = b[j]? then
        ⟨.keep, offset + i, offset + j⟩ :: walk a b table offset fuel (i + 1) (j + 1)
      else if i < a.length ∧ (j = b.length ∨ cell table i (j + 1) ≤ cell table (i + 1) j) then
        ⟨.remove, offset + i, offset + j⟩ :: walk a b table offset fuel (i + 1) j
      else ⟨.add, offset + i, offset + j⟩ :: walk a b table offset fuel i (j + 1)
    else []

/-- The operations between the common start and the common end. -/
def middleOps (offset : Nat) (a b : List Text) : List LineOp :=
  if a.length * b.length ≤ maxLcsCells ∧ 0 < a.length ∧ 0 < b.length then
    walk a b (lcsTable b a) offset (a.length + b.length) 0 0
  else
    (List.range a.length).map (fun i => ⟨.remove, offset + i, offset⟩) ++
      (List.range b.length).map fun j => ⟨.add, offset + a.length, offset + j⟩

/-- The numbers of lines of the common start and of the common end. -/
def commonEnds : Nat × Nat :=
  let start := common a b
  (start, common (a.drop start).reverse (b.drop start).reverse)

/-- The lines `am` and `bm` between the common start and the common end. -/
def middle : List Text × List Text :=
  let (start, stop) := commonEnds a b
  ((a.drop start).take (a.length - stop - start), (b.drop start).take (b.length - stop - start))

/-- `line_ops`. -/
def lineOps : List LineOp :=
  let (start, stop) := commonEnds a b
  let (am, bm) := middle a b
  (List.range start).map (fun i => ⟨.keep, i, i⟩) ++ middleOps start am bm ++
    (List.range stop).map fun k => ⟨.keep, a.length - stop + k, b.length - stop + k⟩

/-! ## The diff of two texts -/

/-- `cut_at`: the characters that end within the limit. -/
def cutAt : Text → Nat → Text
  | [], _ => []
  | c :: text, limit => if c.utf8Size ≤ limit then c :: cutAt text (limit - c.utf8Size) else []

/-- The operations that change something, by their places. -/
def changed (ops : List LineOp) : List Nat :=
  (List.range ops.length).filter fun k => (ops[k]?).any fun o => o.op ≠ .keep

/-- A hunk around the changes from `first` to `last`, among `length` operations. -/
def rangeOf (length first last : Nat) : Nat × Nat :=
  (first - contextLines, min (last + contextLines + 1) length)

/-- The loops that group changes whose context overlaps; the group so far is from `first` to `last`.
-/
def groupFrom (length : Nat) : Nat → Nat → List Nat → List (Nat × Nat)
  | first, last, [] => [rangeOf length first last]
  | first, last, k :: rest =>
    if k ≤ last + 2 * contextLines then groupFrom length first k rest
    else rangeOf length first last :: groupFrom length k k rest

/-- The ranges of the hunks. -/
def ranges (length : Nat) : List Nat → List (Nat × Nat)
  | [] => []
  | k :: rest => groupFrom length k k rest

/-- The line of an operation. -/
def LineOp.line (o : LineOp) : Op × Text :=
  match o.op with
  | .add => (.add, b.getD o.new [])
  | op => (op, a.getD o.old [])

/-- The hunk of some operations in a row. -/
def hunkOf (ops : List LineOp) : Hunk where
  oldStart := match ops.find? fun o => o.op ≠ .add with
    | some o => o.old + 1
    | none => (ops.head?.map LineOp.old).getD 0
  oldLength := (ops.filter fun o => o.op ≠ .add).length
  newStart := match ops.find? fun o => o.op ≠ .remove with
    | some o => o.new + 1
    | none => (ops.head?.map LineOp.new).getD 0
  newLength := (ops.filter fun o => o.op ≠ .remove).length
  body := ops.map (LineOp.line a b)

/-- The operations of a range. -/
def slice (ops : List LineOp) (range : Nat × Nat) : List LineOp :=
  (ops.drop range.1).take (range.2 - range.1)

/-- Push the lines of a hunk, or stop with the text cut at the limit. -/
def pushLines (limit : Nat) : Text → List (Op × Text) → Except Text Text
  | out, [] => .ok out
  | out, line :: lines =>
    let out := out ++ renderLine line
    if limit < size out then .error (cutAt out limit) else pushLines limit out lines

/-- Push the hunks. -/
def pushHunks (limit : Nat) : Text → List Hunk → Except Text Text
  | out, [] => .ok out
  | out, h :: hunks =>
    match pushLines limit (out ++ renderHeader h) h.body with
    | .ok out => pushHunks limit out hunks
    | .error cut => .error cut

/-- The file header of a diff. -/
def fileHeader (path : Text) : Text := "--- a/" ++ path ++ "\n+++ b/" ++ path ++ "\n"

/-- The hunks of the diff of two texts. -/
def hunks (old new : Text) : List Hunk :=
  let a := splitLines old
  let b := splitLines new
  let ops := lineOps a b
  (ranges ops.length (changed ops)).map fun range => hunkOf a b (slice ops range)

/-- `unified`: the diff, and whether it was cut at the limit. -/
def unified (path old new : Text) (limit : Nat) : Text × Bool :=
  if limit < size (fileHeader path) then (cutAt (fileHeader path) limit, true)
  else
    match pushHunks limit (fileHeader path) (hunks old new) with
    | .ok out => (out, false)
    | .error cut => (cut, true)

/-! ## The diffs of a review -/

/-- `DiffOmitted`. -/
inductive DiffOmitted where
  | notText
  | tooLarge
  | budgetExhausted
  deriving DecidableEq

/-- `TextDiff`. -/
inductive TextDiff where
  | unified (text : Text) (truncated : Bool)
  | omitted (why : DiffOmitted)
  deriving DecidableEq

/-- `render`: the diff of two files, and what is left of the budget. -/
def render (path : RelPath) (old new : Bytes) (budget : Nat) : TextDiff × Nat :=
  if maxDiffFileBytes < old.length ∨ maxDiffFileBytes < new.length then
    (.omitted .tooLarge, budget)
  else
    match fromUtf8 old, fromUtf8 new with
    | .ok old, .ok new =>
      if budget = 0 then (.omitted .budgetExhausted, budget)
      else
        let (text, truncated) := unified path.asString old new (min maxDiffBytesPerFile budget)
        (.unified text truncated, budget - size text)
    | _, _ => (.omitted .notText, budget)

/-- `ChangeKind`. -/
inductive ChangeKind where
  | create
  | replace
  | delete
  deriving DecidableEq

/-- `FileChange`. -/
structure FileChange where
  path : RelPath
  kind : ChangeKind
  old : Option ManifestEntry
  new : Option ManifestEntry
  diff : TextDiff

/-- How a path changed, if it did. -/
def changeKind : Option ManifestEntry → Option ManifestEntry → Option ChangeKind
  | some a, some b => if a = b then none else some .replace
  | none, some _ => some .create
  | some _, none => some .delete
  | none, none => none

/-- The diff of a change, and what is left of the budget. -/
def renderChange (old new : Table RelPath Bytes) (path : RelPath) (kind : ChangeKind)
    (budget : Nat) : TextDiff × Nat :=
  let oldBytes := if kind = .create then some [] else old.get? path
  let newBytes := if kind = .delete then some [] else new.get? path
  match oldBytes, newBytes with
  | some a, some b => render path a b budget
  | _, _ => (.omitted .notText, budget)

/-- The loop of `build` over the paths, within the budget. -/
def buildChanges (base candidate : Table RelPath ManifestEntry) (old new : Table RelPath Bytes) :
    List RelPath → Nat → List FileChange
  | [], _ => []
  | path :: paths, budget =>
    match changeKind (base.get? path) (candidate.get? path) with
    | none => buildChanges base candidate old new paths budget
    | some kind =>
      let (diff, budget) := renderChange old new path kind budget
      { path, kind, old := base.get? path, new := candidate.get? path, diff } ::
        buildChanges base candidate old new paths budget

/-- The changes of `build`. -/
def build (base candidate : Table RelPath ManifestEntry) (old new : Table RelPath Bytes) :
    List FileChange :=
  let keys := base.entries.map Prod.fst ++ candidate.entries.map Prod.fst
  buildChanges base candidate old new ((keys.mergeSort RelPath.le).destutter (· ≠ ·))
    maxDiffBytesTotal

end NexusOs.CodingRun
