import NexusOs.CodingRun.LineOps

/-!
# The review shows exactly the change

The hunks of a diff describe how the old lines become the new ones (`describes_hunks`), a diff that
is not cut is their text (`unified_whole`), and all that is rendered keeps the limits.
-/

namespace NexusOs.CodingRun

open Framing Utf8 UnifiedDiff List LineOp

/-! ## One hunk -/

@[simp] theorem LineOp.line_fst (a b : List Text) (o : LineOp) : (o.line a b).1 = o.op := by
  unfold line
  split
  · rename_i h
    exact h.symm
  · rfl

theorem length_oldLines (a b : List Text) (ops : List LineOp) :
    (oldLines (ops.map (line a b))).length = (ops.filter fun o => o.op ≠ .add).length := by
  simp [oldLines, filter_map, Function.comp_def]

theorem length_newLines (a b : List Text) (ops : List LineOp) :
    (newLines (ops.map (line a b))).length =
      (ops.filter fun o => o.op ≠ .remove).length := by
  simp [newLines, filter_map, Function.comp_def]

variable {ops : List LineOp} {p first stop : Nat}

theorem length_filter_eq_zero {p : LineOp → Bool} :
    (ops.filter p).length = 0 ↔ ops.find? p = none := by
  rw [length_eq_zero_iff, filter_eq_nil_iff, List.find?_eq_none]

variable {o : LineOp} (limit : Nat)

namespace Covers

variable {a b : List Text} {i j k l : Nat} {ops : List LineOp}

variable (h : Covers a b i j ops k l)

include h

/-- The first operation stands at the lines that operations begin with. -/
theorem head_eq (ho : ops.head? = some o) : o.old = i ∧ o.new = j := by
  cases h with
  | nil => simp at ho
  | keep _ _ _ | remove _ _ | add _ _ =>
    obtain rfl : _ = o := by simpa using ho
    exact ⟨rfl, rfl⟩

/-- The first operation on the old text stands at its first line covered. -/
theorem find_old (ho : ops.find? (fun o => o.op ≠ .add) = some o) : o.old = i := by
  induction h with
  | nil => simp at ho
  | keep _ _ _ _ | remove _ _ _ =>
    obtain rfl : _ = o := by simpa using ho
    rfl
  | add _ _ ih => exact ih (by simpa using ho)

/-- The first operation on the new text stands at its first line covered. -/
theorem find_new (ho : ops.find? (fun o => o.op ≠ .remove) = some o) : o.new = j := by
  induction h with
  | nil => simp at ho
  | keep _ _ _ _ | add _ _ _ =>
    obtain rfl : _ = o := by simpa using ho
    rfl
  | remove _ _ ih => exact ih (by simpa using ho)

theorem oldBefore_hunkOf (hne : ops ≠ []) :
    (hunkOf a b ops).oldBefore = i ∧ (0 < (hunkOf a b ops).oldLength →
      0 < (hunkOf a b ops).oldStart) := by
  cases hfind : ops.find? (fun o => o.op ≠ .add) with
  | some o =>
    have hpos : (ops.filter fun o => o.op ≠ .add).length ≠ 0 := by
      rw [ne_eq, length_filter_eq_zero, hfind]
      nofun
    simp only [hunkOf, Hunk.oldBefore, hfind, if_neg hpos]
    have hold := h.find_old hfind
    omega
  | none =>
    have hnone := length_filter_eq_zero.mpr hfind
    obtain ⟨o, ho⟩ := Option.isSome_iff_exists.mp (isSome_head?.mpr hne)
    simp only [hunkOf, Hunk.oldBefore, hfind, hnone]
    simp [ho, (h.head_eq ho).1]

theorem newBefore_hunkOf (hne : ops ≠ []) :
    (hunkOf a b ops).newBefore = j ∧ (0 < (hunkOf a b ops).newLength →
      0 < (hunkOf a b ops).newStart) := by
  cases hfind : ops.find? (fun o => o.op ≠ .remove) with
  | some o =>
    have hpos : (ops.filter fun o => o.op ≠ .remove).length ≠ 0 := by
      rw [ne_eq, length_filter_eq_zero, hfind]
      nofun
    simp only [hunkOf, Hunk.newBefore, hfind, if_neg hpos]
    have hnew := h.find_new hfind
    omega
  | none =>
    have hnone := length_filter_eq_zero.mpr hfind
    obtain ⟨o, ho⟩ := Option.isSome_iff_exists.mp (isSome_head?.mpr hne)
    simp only [hunkOf, Hunk.newBefore, hfind, hnone]
    simp [ho, (h.head_eq ho).2]

/-- The hunk of operations in a row is well formed. -/
theorem wellFormed_hunkOf (hne : ops ≠ []) (ha : ∀ line ∈ a, IsLine line)
    (hb : ∀ line ∈ b, IsLine line) : (hunkOf a b ops).WellFormed where
  lines line hline := (h.mem_lines line hline).elim (ha _) (hb _)
  old := (length_oldLines a b ops).symm
  new := (length_newLines a b ops).symm
  oldNumbered := (h.oldBefore_hunkOf hne).2
  newNumbered := (h.newBefore_hunkOf hne).2

end Covers

/-- Operations that change nothing name the same lines of both texts. -/
theorem oldLines_eq_newLines (a b : List Text) (h : ∀ o ∈ ops, o.op = .keep) :
    oldLines (ops.map (LineOp.line a b)) = newLines (ops.map (LineOp.line a b)) := by
  have hall : ∀ line ∈ ops.map (LineOp.line a b), line.1 = .keep := by simpa using h
  unfold oldLines newLines
  rw [filter_eq_self.mpr fun line hline => by simp [hall line hline],
    filter_eq_self.mpr fun line hline => by simp [hall line hline]]

/-! ## The ranges of the hunks -/

/-- The ranges are in order from `p` on, and hold all operations from there that change
something. -/
inductive Ranged (ops : List LineOp) : Nat → List (Nat × Nat) → Prop where
  | nil {p : Nat} : (∀ o ∈ ops.drop p, o.op = .keep) → Ranged ops p []
  | cons {p first stop : Nat} {rest : List (Nat × Nat)} : p ≤ first → first < stop →
      stop ≤ ops.length → (∀ o ∈ (ops.drop p).take (first - p), o.op = .keep) →
      Ranged ops stop rest → Ranged ops p ((first, stop) :: rest)

/-- The operations from `p` on, by the range that comes next. -/
theorem drop_eq_slice (hp : p ≤ first) (hstop : first ≤ stop) : ops.drop p =
      (ops.drop p).take (first - p) ++ (slice ops (first, stop) ++ ops.drop stop) := by
  have hrest : slice ops (first, stop) ++ ops.drop stop = ops.drop first := by
    have hdrop : ops.drop stop = (ops.drop first).drop (stop - first) := by
      rw [drop_drop, Nat.add_sub_cancel' hstop]
    rw [slice, hdrop, take_append_drop]
  have hfirst : ops.drop first = (ops.drop p).drop (first - p) := by
    rw [drop_drop, Nat.add_sub_cancel' hp]
  rw [hrest, hfirst, take_append_drop]

theorem slice_ne_nil (hlt : first < stop)
    (hstop : stop ≤ ops.length) : slice ops (first, stop) ≠ [] := by
  rw [← length_pos_iff, slice, length_take, length_drop]
  omega

namespace Ranged

variable {a b : List Text} {ops : List LineOp} {p : Nat} {rs : List (Nat × Nat)}

/-- The hunks of ranges describe how the lines from there on change. -/
theorem describes (h : Ranged ops p rs) {i j : Nat}
    (hcovers : Covers a b i j (ops.drop p) a.length b.length)
    (ha : ∀ line ∈ a, IsLine line) (hb : ∀ line ∈ b, IsLine line) :
    Describes i j (rs.map fun range => hunkOf a b (slice ops range)) (a.drop i) (b.drop j) := by
  induction h generalizing i j with
  | @nil p hkeep =>
    obtain ⟨hold, hnew⟩ := hcovers.lines
    rw [hold, hnew, oldLines_eq_newLines a b hkeep, drop_length, drop_length]
    exact .done
  | @cons p first stop rest hp hlt hstop hkeep _ ih =>
    rw [drop_eq_slice hp (Nat.le_of_lt hlt)] at hcovers
    obtain ⟨k, l, hgap, hcovers⟩ := hcovers.split
    obtain ⟨m, n, hslice, hrest⟩ := hcovers.split
    have hne := slice_ne_nil hlt hstop
    obtain ⟨hgapOld, hgapNew⟩ := hgap.lines
    obtain ⟨hk, hl⟩ := hgap.lengths
    obtain ⟨hsliceOld, hsliceNew⟩ := hslice.lines
    obtain ⟨hm, hn⟩ := hslice.lengths
    have hold : (hunkOf a b (slice ops (first, stop))).oldBefore = k :=
      (hslice.oldBefore_hunkOf hne).1
    have hnew : (hunkOf a b (slice ops (first, stop))).newBefore = l :=
      (hslice.newBefore_hunkOf hne).1
    have hformed := hslice.wellFormed_hunkOf hne ha hb
    have hsame := oldLines_eq_newLines a b hkeep
    rw [hgapOld, hgapNew, hsliceOld, hsliceNew, ← hsame]
    refine .hunk (hold.trans hk) (hnew.trans (by rw [hl, hsame])) hformed ?_
    rw [hold, hnew, hformed.old, hformed.new]
    have hafter := ih hrest
    rw [hm, hn] at hafter ⊢
    exact hafter

/-- The ranges hold every operation that changes something, in order. -/
theorem changes (h : Ranged ops p rs) :
    (rs.flatMap (slice ops)).filter (fun o => o.op ≠ .keep) =
      (ops.drop p).filter fun o => o.op ≠ .keep := by
  induction h with
  | nil hkeep => simpa using hkeep
  | @cons p first stop rest hp hlt hstop hkeep _ ih =>
    have hnone : ((ops.drop p).take (first - p)).filter (fun o => o.op ≠ .keep) = [] := by
      simpa using hkeep
    rw [drop_eq_slice hp (Nat.le_of_lt hlt), filter_append, hnone, nil_append,
      filter_append, flatMap_cons, filter_append, ih]

/-- No range is empty. -/
theorem slice_ne_nil (h : Ranged ops p rs) : ∀ range ∈ rs, slice ops range ≠ [] := by
  induction h with
  | nil => simp
  | cons _ hlt hstop _ _ ih => exact forall_mem_cons.mpr ⟨CodingRun.slice_ne_nil hlt hstop, ih⟩

end Ranged

/-- Operations of which none is in `changed` change nothing. -/
theorem keep_of_not_changed {n : Nat}
    (h : ∀ k, p ≤ k → k < p + n → k ∉ changed ops) : ∀ o ∈ (ops.drop p).take n, o.op = .keep := by
  intro o ho
  obtain ⟨x, hx, rfl⟩ := mem_iff_getElem.mp ho
  simp only [length_take, length_drop] at hx
  have hnot := h (p + x) (Nat.le_add_right ..) (by omega)
  have hlt : p + x < ops.length := by omega
  simpa [changed, hlt] using hnot

theorem keep_of_not_changed_after (h : ∀ k, p ≤ k → k ∉ changed ops) :
    ∀ o ∈ ops.drop p, o.op = .keep := by
  have hall := @keep_of_not_changed ops p (ops.drop p).length fun k hk _ => h k hk
  rwa [take_length] at hall

/-- The loops that group changes make ranges in order that hold all of them. -/
theorem ranged_groupFrom {last : Nat} {ks : List Nat}
    (hp : p ≤ first - contextLines) (hfirst : first ≤ last) (hlast : last < ops.length)
    (hsorted : (last :: ks).Pairwise (· < ·)) (hlt : ∀ k ∈ ks, k < ops.length)
    (hall : ∀ k ∈ changed ops, p ≤ k → first ≤ k ∧ k ≤ last ∨ k ∈ ks) :
    Ranged ops p (groupFrom ops.length first last ks) := by
  induction ks generalizing p first last with
  | nil =>
    refine .cons hp ?_ (Nat.min_le_right ..) (keep_of_not_changed ?_)
      (.nil (keep_of_not_changed_after ?_))
    · omega
    · intro k hk hbefore hchanged
      have hplace := hall k hchanged hk
      simp only [not_mem_nil, or_false] at hplace hbefore
      omega
    · intro k hk hchanged
      have hplace := hall k hchanged (by omega)
      simp only [not_mem_nil, or_false] at hplace
      omega
  | cons next ks ih =>
    obtain ⟨hnext, hrest⟩ := pairwise_cons.mp hsorted
    have hlastNext : last < next := hnext next (by simp)
    rw [groupFrom]
    split
    · refine ih hp (by omega) (hlt next (by simp)) hrest (fun k hk => hlt k (by simp [hk])) ?_
      intro k hchanged hk
      rcases hall k hchanged hk with hplace | hmem
      · exact .inl ⟨hplace.1, by omega⟩
      · rcases mem_cons.mp hmem with rfl | hmem
        · exact .inl ⟨by omega, Nat.le_refl _⟩
        · exact .inr hmem
    · rename_i hfar
      simp only [contextLines] at hp hfar
      refine .cons hp ?_ (Nat.min_le_right ..) (keep_of_not_changed ?_) (ih ?_ (Nat.le_refl _)
        (hlt next (by simp)) hrest (fun k hk => hlt k (by simp [hk])) ?_)
      · omega
      · intro k hk hbefore hchanged
        rcases hall k hchanged hk with hplace | hmem
        · omega
        · have := hnext k hmem
          omega
      · simp only [contextLines]
        omega
      intro k hchanged hk
      rcases hall k hchanged (by omega) with hplace | hmem
      · omega
      · rcases mem_cons.mp hmem with rfl | hmem
        · exact .inl ⟨Nat.le_refl _, Nat.le_refl _⟩
        · exact .inr hmem

theorem ranged_ranges (ops : List LineOp) : Ranged ops 0 (ranges ops.length (changed ops)) := by
  have hsorted : (changed ops).Pairwise (· < ·) := pairwise_lt_range.filter _
  have hlt : ∀ k ∈ changed ops, k < ops.length := fun k hk => mem_range.mp (mem_of_mem_filter hk)
  cases hchanged : changed ops with
  | nil => exact .nil (keep_of_not_changed_after fun k _ => by simp [hchanged])
  | cons first ks =>
    rw [hchanged] at hsorted hlt
    refine ranged_groupFrom (Nat.zero_le _) (Nat.le_refl _) (hlt first (by simp)) hsorted
      (fun k hk => hlt k (by simp [hk])) fun k hk _ => ?_
    rw [hchanged] at hk
    rcases mem_cons.mp hk with rfl | hk
    · exact .inl ⟨Nat.le_refl _, Nat.le_refl _⟩
    · exact .inr hk

/-! ## The hunks of a diff -/

section

variable (old new : Text) {line : Text}

/-- The hunks of a diff describe how the old lines become the new ones. -/
theorem describes_hunks : Describes 0 0 (hunks old new) (splitLines old) (splitLines new) := by
  have hcovers := covers_lineOps (splitLines old) (splitLines new)
  exact (ranged_ranges _).describes (i := 0) (j := 0) hcovers
    (fun _ => isLine_of_mem_splitLines) (fun _ => isLine_of_mem_splitLines)

/-- The hunks' lines that change something are those of the operations that do. -/
theorem hunks_changes :
    ((hunks old new).flatMap Hunk.body).filter (fun line => line.1 ≠ .keep) =
      ((lineOps (splitLines old) (splitLines new)).filter fun o => o.op ≠ .keep).map
        (LineOp.line (splitLines old) (splitLines new)) := by
  have hchanges := (ranged_ranges (lineOps (splitLines old) (splitLines new))).changes
  rw [drop_zero] at hchanges
  rw [← hchanges, hunks, flatMap_map]
  simp only [hunkOf]
  rw [← map_flatMap, filter_map]
  simp [Function.comp_def]

theorem hunks_body_ne_nil : ∀ h ∈ hunks old new, h.body ≠ [] := by
  intro h hh
  obtain ⟨range, hrange, rfl⟩ := mem_map.mp hh
  simpa [hunkOf] using (ranged_ranges _).slice_ne_nil range hrange

/-- An operation that changes something is shown. -/
theorem shown_of_mem (ho : o ∈ lineOps (splitLines old) (splitLines new)) (hop : o.op ≠ .keep) :
    ∃ h ∈ hunks old new, o.line (splitLines old) (splitLines new) ∈ h.body := by
  have hmem := mem_map_of_mem (f := line (splitLines old) (splitLines new))
    (mem_filter.mpr ⟨ho, by simpa using hop⟩ : o ∈ List.filter (fun o => o.op ≠ .keep) _)
  rw [← hunks_changes, mem_filter] at hmem
  exact mem_flatMap.mp hmem.1

/-- A line of the old text that is not kept is shown as removed. -/
theorem removed_shown {x : Nat} (hline : (splitLines old)[x]? = some line)
    (hkept : ∀ y, (⟨.keep, x, y⟩ : LineOp) ∉ lineOps (splitLines old) (splitLines new)) :
    ∃ h ∈ hunks old new, (.remove, line) ∈ h.body := by
  obtain ⟨hlt, -⟩ := List.getElem?_eq_some_iff.mp hline
  rcases (covers_lineOps _ (splitLines new)).old_covered (Nat.zero_le x) hlt with
    ⟨y, hy⟩ | ⟨y, hy⟩
  · exact absurd hy (hkept y)
  simpa [LineOp.line, hline] using shown_of_mem old new hy (by simp)

/-- A line of the new text that is not kept is shown as added. -/
theorem added_shown {y : Nat} (hline : (splitLines new)[y]? = some line)
    (hkept : ∀ x, (⟨.keep, x, y⟩ : LineOp) ∉ lineOps (splitLines old) (splitLines new)) :
    ∃ h ∈ hunks old new, (.add, line) ∈ h.body := by
  obtain ⟨hlt, -⟩ := List.getElem?_eq_some_iff.mp hline
  rcases (covers_lineOps (splitLines old) _).new_covered (Nat.zero_le y) hlt with
    ⟨x, hx⟩ | ⟨x, hx⟩
  · exact absurd hx (hkept x)
  simpa [LineOp.line, hline] using shown_of_mem old new hx (by simp)

end

/-! ## The limits -/

theorem size_cutAt (text : Text) (limit : Nat) : size (cutAt text limit) ≤ limit := by
  induction text generalizing limit with
  | nil => exact Nat.zero_le _
  | cons c text ih =>
    rw [cutAt]
    split
    · have hrest := ih (limit - c.utf8Size)
      rw [size, map_cons, sum_cons, ← size]
      omega
    · exact Nat.zero_le _

/-- Lines pushed within the limit are all there; what stops at the limit is within it. -/
theorem pushLines_cases (out : Text) (lines : List (Op × Text)) :
    (∃ cut, pushLines limit out lines = .error cut ∧ size cut ≤ limit) ∨
      pushLines limit out lines = .ok (out ++ lines.flatMap renderLine) ∧
        (lines ≠ [] → size (out ++ lines.flatMap renderLine) ≤ limit) := by
  induction lines generalizing out with
  | nil => simp [pushLines]
  | cons line lines ih =>
    by_cases hlimit : limit < size (out ++ renderLine line)
    · exact .inl ⟨cutAt (out ++ renderLine line) limit, by simp [pushLines, hlimit], size_cutAt _ _⟩
    have hpush : pushLines limit out (line :: lines) =
        pushLines limit (out ++ renderLine line) lines := by simp [pushLines, hlimit]
    rw [hpush, flatMap_cons, ← append_assoc]
    rcases ih (out ++ renderLine line) with hcut | ⟨hok, hsize⟩
    · exact .inl hcut
    refine .inr ⟨hok, fun _ => ?_⟩
    cases lines with
    | nil => simpa using hlimit
    | cons => exact hsize (by simp)

theorem pushHunks_cases {out : Text} {hunks : List Hunk}
    (hne : ∀ h ∈ hunks, h.body ≠ []) (hout : size out ≤ limit) :
    (∃ cut, pushHunks limit out hunks = .error cut ∧ size cut ≤ limit) ∨
      pushHunks limit out hunks = .ok (out ++ renderHunks hunks) ∧
        size (out ++ renderHunks hunks) ≤ limit := by
  induction hunks generalizing out with
  | nil => exact .inr ⟨by simp [pushHunks, renderHunks], by simpa [renderHunks] using hout⟩
  | cons h hunks ih =>
    rcases pushLines_cases limit (out ++ renderHeader h) h.body with ⟨cut, hcut, hsize⟩ | hpush
    · exact .inl ⟨cut, by simp [pushHunks, hcut], hsize⟩
    · obtain ⟨hpush, hsize⟩ := hpush
      have hrest := ih (fun h' hh => hne h' (by simp [hh])) (hsize (hne h (by simp)))
      simpa [pushHunks, hpush, renderHunks, renderHunk] using hrest

/-- A diff is within the limit, and if not cut is its header and all its hunks. -/
theorem unified_cases (path old new : Text) (limit : Nat) :
    size (unified path old new limit).1 ≤ limit ∧
      ((unified path old new limit).2 = false →
        (unified path old new limit).1 = fileHeader path ++ renderHunks (hunks old new)) := by
  unfold unified
  split
  · exact ⟨size_cutAt _ _, by simp⟩
  rename_i hheader
  rcases pushHunks_cases limit (hunks_body_ne_nil old new) (Nat.le_of_not_lt hheader) with
    ⟨cut, hcut, hsize⟩ | ⟨hok, hsize⟩
  · rw [hcut]
    exact ⟨hsize, by simp⟩
  · rw [hok]
    exact ⟨hsize, fun _ => rfl⟩

/-- The bytes of a diff that is shown. -/
def TextDiff.rendered : TextDiff → Nat
  | .unified text _ => size text
  | .omitted _ => 0

/-- A diff is within the limit of one file, and takes from the budget what it shows. -/
theorem render_within (path : RelPath) (old new : Bytes) (budget : Nat) :
    (render path old new budget).1.rendered ≤ maxDiffBytesPerFile ∧
      (render path old new budget).1.rendered + (render path old new budget).2 ≤ budget := by
  unfold render
  split
  · simp [TextDiff.rendered]
  split
  · rename_i old new _ _
    split
    · simp [TextDiff.rendered]
    · have hlimit := (unified_cases path.asString old new (min maxDiffBytesPerFile budget)).1
      simp only [TextDiff.rendered]
      omega
  · simp [TextDiff.rendered]

theorem renderChange_within (old new : Table RelPath Bytes) (path : RelPath) (kind : ChangeKind)
    (budget : Nat) :
    (renderChange old new path kind budget).1.rendered ≤ maxDiffBytesPerFile ∧
      (renderChange old new path kind budget).1.rendered +
        (renderChange old new path kind budget).2 ≤ budget := by
  unfold renderChange
  dsimp only
  split
  · exact render_within path _ _ budget
  · simp [TextDiff.rendered]

theorem buildChanges_within (base candidate : Table RelPath ManifestEntry)
    (old new : Table RelPath Bytes) (paths : List RelPath) (budget : Nat) :
    (∀ c ∈ buildChanges base candidate old new paths budget,
      c.diff.rendered ≤ maxDiffBytesPerFile) ∧
    ((buildChanges base candidate old new paths budget).map fun c => c.diff.rendered).sum ≤
      budget := by
  induction paths generalizing budget with
  | nil => simp [buildChanges]
  | cons path paths ih =>
    rw [buildChanges]
    split
    · exact ih budget
    rename_i kind _
    obtain ⟨hfile, htotal⟩ := renderChange_within old new path kind budget
    obtain ⟨hfiles, hsum⟩ := ih (renderChange old new path kind budget).2
    refine ⟨forall_mem_cons.mpr ⟨hfile, hfiles⟩, ?_⟩
    simp only [map_cons, sum_cons]
    omega

/-! ## The change and its review -/

/-- A diff that is not cut is its file header and hunks that read back as they are, in increasing
order and without overlap, each at its line numbers with its counts; applied to the old text they
make the new one, and they show every line of either text that no operation keeps. The operations
keep as many lines as possible where the middle has at most 2000000 pairs of lines, and a review
keeps its limits. -/
theorem review_shows_change :
    (∀ (path old new : Text) (limit : Nat) (text : Text),
      unified path old new limit = (text, false) →
      ∃ diff hunks, text = fileHeader path ++ diff ∧ readHunks diff.length diff = some hunks ∧
        (hunks.Pairwise fun h k => h.oldBefore + h.oldLength ≤ k.oldBefore ∧
          h.newBefore + h.newLength ≤ k.newBefore) ∧
        (∀ h ∈ hunks, h.WellFormed ∧
          ((splitLines old).drop h.oldBefore).take h.oldLength = oldLines h.body ∧
          ((splitLines new).drop h.newBefore).take h.newLength = newLines h.body) ∧
        patch diff old = some new ∧
        (∀ x line, (splitLines old)[x]? = some line →
          (∀ y, (⟨.keep, x, y⟩ : LineOp) ∉ lineOps (splitLines old) (splitLines new)) →
          ∃ h ∈ hunks, (.remove, line) ∈ h.body) ∧
        (∀ y line, (splitLines new)[y]? = some line →
          (∀ x, (⟨.keep, x, y⟩ : LineOp) ∉ lineOps (splitLines old) (splitLines new)) →
          ∃ h ∈ hunks, (.add, line) ∈ h.body) ∧
        (hunks.flatMap Hunk.body).filter (fun line => line.1 ≠ .keep) =
          ((lineOps (splitLines old) (splitLines new)).filter fun o => o.op ≠ .keep).map
            (line (splitLines old) (splitLines new))) ∧
    (∀ a b : List Text, (middle a b).1.length * (middle a b).2.length ≤ 2000000 →
      LcsLength a b (keeps (lineOps a b))) ∧
    (∀ (base candidate : Table RelPath ManifestEntry) (old new : Table RelPath Bytes),
      (∀ c ∈ build base candidate old new, c.diff.rendered ≤ 65536) ∧
        ((build base candidate old new).map fun c => c.diff.rendered).sum ≤ 524288) := by
  refine ⟨?_, fun a b h => lcsLength_keeps a b h, fun base candidate old new =>
    buildChanges_within base candidate old new _ maxDiffBytesTotal⟩
  intro path old new limit text h
  have hdescribes := describes_hunks old new
  refine ⟨renderHunks (hunks old new), hunks old new, ?_,
    readHunks_renderHunks hdescribes.wellFormed (length_le_renderHunks _), hdescribes.ordered,
    fun k hk => ⟨hdescribes.wellFormed k hk, hdescribes.placed k hk⟩, hdescribes.patch_eq,
    fun x line => removed_shown old new, fun y line => added_shown old new, hunks_changes old new⟩
  have hwhole := (unified_cases path old new limit).2
  rw [h] at hwhole
  exact hwhole rfl

/-- The diff of a small change, to which nothing has to be cut. -/
def sampleDiff : Text :=
  "--- a/f\n+++ b/f\n@@ -1,2 +1,2 @@\n a\n-b\n\\ No newline at end of file\n+c\n"

theorem review_shows_sample_change :
    unified "f" "a\nb" "a\nc\n" 65536 = (sampleDiff, false) ∧
      ∃ diff, sampleDiff = fileHeader "f" ++ diff ∧ patch diff "a\nb" = some "a\nc\n".toList := by
  have hdiff : unified "f" "a\nb" "a\nc\n" 65536 = (sampleDiff, false) := by decide +kernel
  obtain ⟨diff, -, htext, -, -, -, hpatch, -⟩ := review_shows_change.1 _ _ _ _ _ hdiff
  exact ⟨hdiff, diff, htext, hpatch⟩

end NexusOs.CodingRun
