import NexusOs.CodingRun.Review
import NexusOs.Lib.Lcs

/-!
# What line operations cover

`Covers a b i j ops i' j'` says that operations take the lines of two texts from `i` and `j` to `i'`
and `j'`. `covers_lineOps` says it of all operations of two texts, `lcsLength_keeps` that they keep
as many lines as possible when the middle is small enough for the table.
-/

namespace NexusOs.CodingRun

open Utf8 UnifiedDiff List List

/-- The operations, in order, go from line `i` to `i'` of the old text and from `j` to `j'` of the
new. -/
inductive Covers (a b : List Text) : Nat → Nat → List LineOp → Nat → Nat → Prop where
  | nil {i j : Nat} : Covers a b i j [] i j
  | keep {i j i' j' : Nat} {line : Text} {ops : List LineOp} :
      a[i]? = some line → b[j]? = some line → Covers a b (i + 1) (j + 1) ops i' j' →
      Covers a b i j (⟨.keep, i, j⟩ :: ops) i' j'
  | remove {i j i' j' : Nat} {line : Text} {ops : List LineOp} :
      a[i]? = some line → Covers a b (i + 1) j ops i' j' →
      Covers a b i j (⟨.remove, i, j⟩ :: ops) i' j'
  | add {i j i' j' : Nat} {line : Text} {ops : List LineOp} :
      b[j]? = some line → Covers a b i (j + 1) ops i' j' →
      Covers a b i j (⟨.add, i, j⟩ :: ops) i' j'

namespace Covers

variable {a b : List Text} {i j k l m n : Nat} {ops ops' : List LineOp}

theorem append (h : Covers a b i j ops k l) (h' : Covers a b k l ops' m n) :
    Covers a b i j (ops ++ ops') m n := by
  induction h with
  | nil => exact h'
  | keep ha hb _ ih => exact .keep ha hb (ih h')
  | remove ha _ ih => exact .remove ha (ih h')
  | add hb _ ih => exact .add hb (ih h')

/-- What covers some lines can be cut at any operation. -/
theorem split (h : Covers a b i j (ops ++ ops') m n) :
    ∃ k l, Covers a b i j ops k l ∧ Covers a b k l ops' m n := by
  induction ops generalizing i j with
  | nil => exact ⟨i, j, .nil, h⟩
  | cons op ops ih =>
    cases h with
    | keep ha hb hrest =>
      obtain ⟨k, l, hfirst, hlast⟩ := ih hrest
      exact ⟨k, l, .keep ha hb hfirst, hlast⟩
    | remove ha hrest =>
      obtain ⟨k, l, hfirst, hlast⟩ := ih hrest
      exact ⟨k, l, .remove ha hfirst, hlast⟩
    | add hb hrest =>
      obtain ⟨k, l, hfirst, hlast⟩ := ih hrest
      exact ⟨k, l, .add hb hfirst, hlast⟩

/-- What operations do to a line, they do with one more before them. -/
theorem covered_cons {p q : Nat → LineOp} (o : LineOp) (h : (∃ y, p y ∈ ops) ∨ ∃ y, q y ∈ ops) :
    (∃ y, p y ∈ o :: ops) ∨ ∃ y, q y ∈ o :: ops :=
  h.imp (fun ⟨y, hy⟩ => ⟨y, .tail o hy⟩) (fun ⟨y, hy⟩ => ⟨y, .tail o hy⟩)

section

variable (h : Covers a b i j ops k l)

include h

/-- A line of the old text that is covered is kept or removed. -/
theorem old_covered {x : Nat} (hi : i ≤ x) (hk : x < k) :
    (∃ y, (⟨.keep, x, y⟩ : LineOp) ∈ ops) ∨ ∃ y, (⟨.remove, x, y⟩ : LineOp) ∈ ops := by
  induction h with
  | nil => omega
  | @keep i j _ _ _ _ _ _ _ ih =>
    rcases Nat.eq_or_lt_of_le hi with rfl | hlt
    · exact .inl ⟨j, by simp⟩
    · exact covered_cons _ (ih hlt hk)
  | @remove i j _ _ _ _ _ _ ih =>
    rcases Nat.eq_or_lt_of_le hi with rfl | hlt
    · exact .inr ⟨j, by simp⟩
    · exact covered_cons _ (ih hlt hk)
  | add _ _ ih => exact covered_cons _ (ih hi hk)

/-- A line of the new text that is covered is kept or added. -/
theorem new_covered {y : Nat} (hj : j ≤ y) (hl : y < l) :
    (∃ x, (⟨.keep, x, y⟩ : LineOp) ∈ ops) ∨ ∃ x, (⟨.add, x, y⟩ : LineOp) ∈ ops := by
  induction h with
  | nil => omega
  | @keep i j _ _ _ _ _ _ _ ih =>
    rcases Nat.eq_or_lt_of_le hj with rfl | hlt
    · exact .inl ⟨i, by simp⟩
    · exact covered_cons _ (ih hlt hl)
  | remove _ _ ih => exact covered_cons _ (ih hj hl)
  | @add i j _ _ _ _ _ _ ih =>
    rcases Nat.eq_or_lt_of_le hj with rfl | hlt
    · exact .inr ⟨i, by simp⟩
    · exact covered_cons _ (ih hlt hl)

/-- The lines that operations cover are those they name. -/
theorem lines :
    a.drop i = oldLines (ops.map (LineOp.line a b)) ++ a.drop k ∧
      b.drop j = newLines (ops.map (LineOp.line a b)) ++ b.drop l := by
  induction h with
  | nil => exact ⟨rfl, rfl⟩
  | keep ha hb _ ih =>
    obtain ⟨hi, ha⟩ := List.getElem?_eq_some_iff.mp ha
    obtain ⟨hj, hb⟩ := List.getElem?_eq_some_iff.mp hb
    rw [drop_eq_getElem_cons hi, drop_eq_getElem_cons hj, ih.1, ih.2]
    simp [LineOp.line, hi, ha, hb]
  | remove ha _ ih =>
    obtain ⟨hi, ha⟩ := List.getElem?_eq_some_iff.mp ha
    rw [drop_eq_getElem_cons hi, ih.1, ih.2]
    simp [LineOp.line, hi]
  | add hb _ ih =>
    obtain ⟨hj, hb⟩ := List.getElem?_eq_some_iff.mp hb
    rw [drop_eq_getElem_cons hj, ih.1, ih.2]
    simp [LineOp.line, hj]

/-- How far operations go is told by the lines they name. -/
theorem lengths :
    k = i + (oldLines (ops.map (LineOp.line a b))).length ∧
      l = j + (newLines (ops.map (LineOp.line a b))).length := by
  induction h with
  | nil => exact ⟨rfl, rfl⟩
  | keep _ _ _ ih | remove _ _ ih | add _ _ ih =>
    simp only [map_cons, LineOp.line, oldLines_keep, oldLines_remove, oldLines_add,
      newLines_keep, newLines_remove, newLines_add, length_cons]
    omega

/-- The lines named are lines of one of the texts. -/
theorem mem_lines : ∀ line ∈ ops.map (LineOp.line a b), line.2 ∈ a ∨ line.2 ∈ b := by
  induction h with
  | nil => simp
  | keep ha _ _ ih | remove ha _ ih =>
    refine forall_mem_cons.mpr ⟨.inl ?_, ih⟩
    simpa [LineOp.line, ha] using mem_of_getElem? ha
  | add hb _ ih =>
    refine forall_mem_cons.mpr ⟨.inr ?_, ih⟩
    simpa [LineOp.line, hb] using mem_of_getElem? hb

end

/-- Lines that are the same in both texts, one after the other. -/
theorem keeps {n : Nat} (h : ∀ x < n, ∃ line, a[i + x]? = some line ∧ b[j + x]? = some line) :
    Covers a b i j ((range n).map fun x => ⟨.keep, i + x, j + x⟩) (i + n) (j + n) := by
  induction n with
  | zero => exact .nil
  | succ n ih =>
    obtain ⟨line, ha, hb⟩ := h n (Nat.lt_succ_self n)
    rw [range_succ, map_append]
    exact (ih fun x hx => h x (Nat.lt_succ_of_lt hx)).append (.keep ha hb .nil)

theorem removes {n : Nat} (h : i + n ≤ a.length) :
    Covers a b i j ((range n).map fun x => ⟨.remove, i + x, j⟩) (i + n) j := by
  induction n with
  | zero => exact .nil
  | succ n ih =>
    rw [range_succ, map_append]
    exact (ih (by omega)).append (.remove (getElem?_eq_getElem (by omega)) .nil)

theorem adds {n : Nat} (h : j + n ≤ b.length) :
    Covers a b i j ((range n).map fun y => ⟨.add, i, j + y⟩) i (j + n) := by
  induction n with
  | zero => exact .nil
  | succ n ih =>
    rw [range_succ, map_append]
    exact (ih (by omega)).append (.add (getElem?_eq_getElem (by omega)) .nil)

end Covers

/-! ## The common start and end -/

/-- The common start of two lists is cut off both. -/
theorem common_split (a b : List Text) :
    ∃ p, p.length = common a b ∧ a = p ++ a.drop p.length ∧ b = p ++ b.drop p.length := by
  induction a generalizing b with
  | nil => exact ⟨[], rfl, rfl, rfl⟩
  | cons x a ih =>
    cases b with
    | nil => exact ⟨[], rfl, rfl, rfl⟩
    | cons y b =>
      by_cases hxy : x = y
      · obtain ⟨p, hlength, ha, hb⟩ := ih b
        refine ⟨x :: p, ?_, ?_, ?_⟩
        · simpa [common, hxy] using hlength
        · simpa using ha
        · simpa [hxy] using hb
      · exact ⟨[], by simp [common, hxy], rfl, rfl⟩

/-- Two texts are their common start, what `line_ops` compares, and their common end. -/
theorem middle_split (a b : List Text) :
    ∃ p s, commonEnds a b = (p.length, s.length) ∧
      a = p ++ (middle a b).1 ++ s ∧ b = p ++ (middle a b).2 ++ s := by
  obtain ⟨p, hp, ha, hb⟩ := common_split a b
  generalize ha' : a.drop p.length = a' at ha
  generalize hb' : b.drop p.length = b' at hb
  obtain ⟨s, hs, hsa, hsb⟩ := common_split a'.reverse b'.reverse
  have hends : commonEnds a b = (p.length, s.reverse.length) := by
    simp [commonEnds, ← hp, ha', hb', hs]
  generalize hx : a'.reverse.drop s.length = x at hsa
  generalize hy : b'.reverse.drop s.length = y at hsb
  have ha'' : a' = x.reverse ++ s.reverse := by rw [← reverse_append, ← hsa, reverse_reverse]
  have hb'' : b' = y.reverse ++ s.reverse := by rw [← reverse_append, ← hsb, reverse_reverse]
  have hmiddle : middle a b = (x.reverse, y.reverse) := by
    unfold middle
    rw [hends]
    simp only [ha', hb']
    have hla : a.length - s.reverse.length - p.length = x.reverse.length := by
      rw [ha, ha'']
      simp
      omega
    have hlb : b.length - s.reverse.length - p.length = y.reverse.length := by
      rw [hb, hb'']
      simp
      omega
    rw [hla, hlb, ha'', hb'', take_left, take_left]
  refine ⟨p, s.reverse, hends, ?_, ?_⟩
  · rw [hmiddle, append_assoc, ← ha'', ← ha]
  · rw [hmiddle, append_assoc, ← hb'', ← hb]

/-- The operations of two texts, by their parts. -/
theorem lineOps_append {a b p s am bm : List Text} (hends : commonEnds a b = (p.length, s.length))
    (hmiddle : middle a b = (am, bm)) (ha : a = p ++ am ++ s) (hb : b = p ++ bm ++ s) :
    lineOps a b = (range p.length).map (fun x => ⟨.keep, 0 + x, 0 + x⟩) ++
      middleOps p.length am bm ++ (range s.length).map fun x =>
        ⟨.keep, p.length + am.length + x, p.length + bm.length + x⟩ := by
  have hla : a.length - s.length = p.length + am.length := by
    rw [ha, length_append, length_append, Nat.add_sub_cancel]
  have hlb : b.length - s.length = p.length + bm.length := by
    rw [hb, length_append, length_append, Nat.add_sub_cancel]
  unfold lineOps
  simp [hends, hmiddle, hla, hlb]

/-! ## The table -/

/-- A row of the table, from the row below it. -/
theorem lcsLength_lcsRow {x : Text} {a b : List Text} {below : List Nat}
    (h : ∀ j ≤ b.length, LcsLength a (b.drop j) (below.getD j 0)) :
    ∀ j ≤ b.length, LcsLength (x :: a) (b.drop j) ((lcsRow x b below).getD j 0) := by
  induction b generalizing below with
  | nil =>
    intro j hj
    obtain rfl : j = 0 := by simpa using hj
    simpa [lcsRow] using LcsLength.nil_right (x :: a)
  | cons y b ih =>
    have htail : ∀ j, below.tail.getD j 0 = below.getD (j + 1) 0 := by cases below <;> simp
    have hhead : below.headD 0 = below.getD 0 0 := by cases below <;> rfl
    have hright := @ih below.tail fun j hj => by simpa using h (j + 1) (by simpa using hj)
    intro j hj
    cases j with
    | succ j => simpa [lcsRow] using hright j (by simpa using hj)
    | zero =>
      have hdiagonal : LcsLength a b (below.tail.headD 0) := by
        have hcell := h 1 (by simp)
        rw [← htail 0] at hcell
        cases hbelow : below.tail <;> simpa [hbelow] using hcell
      have hdown : LcsLength a (y :: b) (below.headD 0) := by
        rw [hhead]
        exact h 0 (Nat.zero_le _)
      have hnext : LcsLength (x :: a) b ((lcsRow x b below.tail).headD 0) := by
        have hcell := hright 0 (Nat.zero_le _)
        cases hrow : lcsRow x b below.tail <;> simpa [hrow] using hcell
      rw [lcsRow]
      by_cases hxy : x = y
      · subst hxy
        simpa using hdiagonal.cons_same
      · simpa [hxy] using hdown.cons_ne hxy hnext

/-- A cell holds the length of a longest common subsequence of the lines from it on. -/
theorem lcsLength_cell {a b : List Text} {i j : Nat} (hi : i ≤ a.length) (hj : j ≤ b.length) :
    LcsLength (a.drop i) (b.drop j) (cell (lcsTable b a) i j) := by
  have hfirst : ∀ {a : List Text}, ∀ j ≤ b.length,
      LcsLength a (b.drop j) (((lcsTable b a).headD []).getD j 0) := by
    intro a
    induction a with
    | nil =>
      intro j hj
      have hlt : j < b.length + 1 := Nat.lt_succ_of_le hj
      simpa [lcsTable, hlt] using LcsLength.nil_left (b.drop j)
    | cons x a ih => exact lcsLength_lcsRow ih
  induction a generalizing i with
  | nil =>
    obtain rfl : i = 0 := by simpa using hi
    exact hfirst j hj
  | cons x a ih =>
    cases i with
    | zero => exact hfirst j hj
    | succ i => exact ih (by simpa using hi)

/-! ## The operations of two texts -/

/-- The lines that operations keep. -/
def keeps (ops : List LineOp) : Nat := ops.countP fun o => o.op = .keep

section

variable (i j : Nat) (ops ops' : List LineOp)

@[simp] theorem keeps_keep : keeps (⟨.keep, i, j⟩ :: ops) = keeps ops + 1 := by simp [keeps]

@[simp] theorem keeps_remove : keeps (⟨.remove, i, j⟩ :: ops) = keeps ops := by simp [keeps]

@[simp] theorem keeps_add : keeps (⟨.add, i, j⟩ :: ops) = keeps ops := by simp [keeps]

@[simp] theorem keeps_append : keeps (ops ++ ops') = keeps ops + keeps ops' := by simp [keeps]

end

section

variable {am bm : List Text} {offset : Nat}

/-- The walk covers what is left from its cell on. -/
theorem covers_walk {a b : List Text} {table : List (List Nat)}
    (ha : ∀ i < am.length, a[offset + i]? = am[i]?) (hb : ∀ j < bm.length, b[offset + j]? = bm[j]?)
    {fuel i j : Nat} (hi : i ≤ am.length) (hj : j ≤ bm.length)
    (hfuel : am.length - i + (bm.length - j) ≤ fuel) :
    Covers a b (offset + i) (offset + j) (walk am bm table offset fuel i j) (offset + am.length)
      (offset + bm.length) := by
  induction fuel generalizing i j with
  | zero =>
    obtain rfl : i = am.length := by omega
    obtain rfl : j = bm.length := by omega
    exact .nil
  | succ fuel ih =>
    rw [walk]
    split
    · split
      · rename_i hsame
        obtain ⟨hi', hj', hline⟩ := hsame
        have hkeep := getElem?_eq_getElem hi'
        refine .keep (by rw [ha i hi', hkeep]) (by rw [hb j hj', ← hline, hkeep]) ?_
        exact ih hi' hj' (by omega)
      · split
        · rename_i hremove
          refine .remove (by rw [ha i hremove.1, getElem?_eq_getElem hremove.1]) ?_
          exact ih hremove.1 hj (by omega)
        · have hj' : j < bm.length := by omega
          refine .add (by rw [hb j hj', getElem?_eq_getElem hj']) ?_
          exact ih hi hj' (by omega)
    · obtain rfl : i = am.length := by omega
      obtain rfl : j = bm.length := by omega
      exact .nil

/-- Where two lines differ, the better of the two neighbouring cells counts. -/
theorem lcsLength_differ {i j : Nat} (hi : i < am.length) (hj : j < bm.length)
    (hdiffer : am[i]? ≠ bm[j]?) :
    LcsLength (am.drop i) (bm.drop j)
      (max (cell (lcsTable bm am) (i + 1) j) (cell (lcsTable bm am) i (j + 1))) := by
  have hdown := lcsLength_cell (a := am) (b := bm) (i := i + 1) hi (Nat.le_of_lt hj)
  have hright := lcsLength_cell (a := am) (b := bm) (j := j + 1) (Nat.le_of_lt hi) hj
  rw [drop_eq_getElem_cons hi] at hright ⊢
  rw [drop_eq_getElem_cons hj] at hdown ⊢
  refine hdown.cons_ne ?_ hright
  simpa [getElem?_eq_getElem hi, getElem?_eq_getElem hj] using hdiffer

/-- The walk keeps as many lines as possible. -/
theorem lcsLength_walk (offset : Nat) {fuel i j : Nat} (hi : i ≤ am.length) (hj : j ≤ bm.length)
    (hfuel : am.length - i + (bm.length - j) ≤ fuel) :
    LcsLength (am.drop i) (bm.drop j) (keeps (walk am bm (lcsTable bm am) offset fuel i j)) := by
  induction fuel generalizing i j with
  | zero =>
    rw [drop_eq_nil_of_le (by omega)]
    exact .nil_left _
  | succ fuel ih =>
    rw [walk]
    split
    · split
      · rename_i hsame
        obtain ⟨hi', hj', hline⟩ := hsame
        have hline' : am[i] = bm[j] := by
          simpa [getElem?_eq_getElem hi', getElem?_eq_getElem hj'] using hline
        have hrest := (@ih (i + 1) (j + 1) hi' hj' (by omega)).cons_same (x := am[i])
        rw [drop_eq_getElem_cons hj', ← hline']
        simpa using hrest
      · rename_i hdiffer
        split
        · rename_i hremove
          obtain ⟨hi', hside⟩ := hremove
          have hrest := @ih (i + 1) j hi' hj (by omega)
          rw [keeps_remove]
          rcases Nat.eq_or_lt_of_le hj with rfl | hj'
          · rw [drop_length] at hrest ⊢
            rw [hrest.unique (.nil_right _)]
            exact .nil_right _
          · rw [hrest.unique (lcsLength_cell hi' hj),
              ← Nat.max_eq_left (hside.resolve_left (Nat.ne_of_lt hj'))]
            exact lcsLength_differ hi' hj' (fun h => hdiffer ⟨hi', hj', h⟩)
        · rename_i hadd
          have hj' : j < bm.length := by omega
          have hrest := @ih i (j + 1) hi hj' (by omega)
          rw [keeps_add]
          rcases Nat.eq_or_lt_of_le hi with rfl | hi'
          · rw [drop_length] at hrest ⊢
            rw [hrest.unique (.nil_left _)]
            exact .nil_left _
          · have hle : cell (lcsTable bm am) (i + 1) j ≤ cell (lcsTable bm am) i (j + 1) := by
              by_contra hlt
              exact hadd ⟨hi', .inr (by omega)⟩
            rw [hrest.unique (lcsLength_cell hi hj'), ← Nat.max_eq_right hle]
            exact lcsLength_differ hi' hj' (fun h => hdiffer ⟨hi', hj', h⟩)
    · rw [drop_eq_nil_of_le (by omega)]
      exact .nil_left _

theorem covers_middleOps {a b : List Text} (ha : ∀ i < am.length, a[offset + i]? = am[i]?)
    (hb : ∀ j < bm.length, b[offset + j]? = bm[j]?) (hal : offset + am.length ≤ a.length)
    (hbl : offset + bm.length ≤ b.length) :
    Covers a b offset offset (middleOps offset am bm) (offset + am.length)
      (offset + bm.length) := by
  unfold middleOps
  split
  · exact covers_walk ha hb (Nat.zero_le _) (Nat.zero_le _) (by omega)
  · exact (Covers.removes hal).append (.adds hbl)

/-- The middle keeps as many lines as possible if it has few pairs of lines. -/
theorem lcsLength_middleOps (offset : Nat) (h : am.length * bm.length ≤ maxLcsCells) :
    LcsLength am bm (keeps (middleOps offset am bm)) := by
  unfold middleOps
  split
  · simpa using lcsLength_walk offset (Nat.zero_le _) (Nat.zero_le _) (by omega)
  rename_i hempty
  have hnone : keeps ((range am.length).map (fun i => ⟨.remove, offset + i, offset⟩) ++
      (range bm.length).map fun j => ⟨.add, offset + am.length, offset + j⟩) = 0 := by
    simp [keeps]
  rw [hnone]
  rcases Nat.eq_zero_or_pos am.length with ham | ham
  · rw [length_eq_zero_iff.mp ham]
    exact .nil_left _
  have hbm : bm.length = 0 := by
    by_contra hbm
    exact hempty ⟨h, ham, Nat.pos_of_ne_zero hbm⟩
  rw [length_eq_zero_iff.mp hbm]
  exact .nil_right _

end

variable (a b : List Text)

/-- The operations cover both texts. -/
theorem covers_lineOps : Covers a b 0 0 (lineOps a b) a.length b.length := by
  obtain ⟨p, s, hends, ha, hb⟩ := middle_split a b
  generalize hmiddle : middle a b = m at ha hb
  obtain ⟨am, bm⟩ := m
  rw [lineOps_append hends hmiddle ha hb]
  have hal : a.length = p.length + am.length + s.length := by simp [ha, Nat.add_assoc]
  have hbl : b.length = p.length + bm.length + s.length := by simp [hb, Nat.add_assoc]
  have hstart := Covers.keeps (a := a) (b := b) (i := 0) (j := 0) (n := p.length) fun x hx =>
    ⟨p[x], by simp [ha, getElem?_append, hx], by simp [hb, getElem?_append, hx]⟩
  have hmid : Covers a b p.length p.length (middleOps p.length am bm) (p.length + am.length)
      (p.length + bm.length) :=
    covers_middleOps (fun i hi => by simp [ha, getElem?_append, hi])
      (fun j hj => by simp [hb, getElem?_append, hj]) (by omega) (by omega)
  have hstop := Covers.keeps (a := a) (b := b) (i := p.length + am.length)
    (j := p.length + bm.length) (n := s.length) fun x hx =>
    ⟨s[x], by simp [ha, Nat.add_assoc, hx], by simp [hb, Nat.add_assoc, hx]⟩
  rw [hal, hbl]
  rw [Nat.zero_add] at hstart
  exact (hstart.append hmid).append hstop

/-- The operations keep as many lines as possible if the middle has few pairs of lines. -/
theorem lcsLength_keeps (h : (middle a b).1.length * (middle a b).2.length ≤ maxLcsCells) :
    LcsLength a b (keeps (lineOps a b)) := by
  obtain ⟨p, s, hends, ha, hb⟩ := middle_split a b
  generalize hmiddle : middle a b = m at ha hb h
  have hmid := (lcsLength_middleOps p.length h).append_left p |>.append_right s
  rw [← ha, ← hb] at hmid
  rw [lineOps_append hends hmiddle ha hb, keeps_append]
  simpa [keeps, Function.comp_def] using hmid

end NexusOs.CodingRun
