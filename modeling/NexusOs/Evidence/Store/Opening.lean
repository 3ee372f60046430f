import NexusOs.Evidence.Store.Call

/-!
# Opening a store

What `qualify` finds and writes: the rows it accepts are numbered, and its statements stand in the
file up to the first that fails.
-/

namespace NexusOs.Evidence

open Utf8 List Inner

variable {c : Codec} {D : Disk → Prop} {s s' : Inner} {store : Text} {disk : Disk}
  {content : Content} {e : Unqualified} {disks : Nat → Disk} {i : Nat} {contents : List Content}
  {last : Nat × Text}

/-- The rows `verify_chain` accepts are numbered on. -/
theorem verifyLoop_numbered {tag : Text} {rows : List Row} {first : Nat}
    (h : verifyLoop c store first tag rows = some last) :
    (∀ (i : Nat) row, rows[i]? = some row → row.seq = first + i + 1) ∧
      last.1 = first + rows.length := by
  induction rows generalizing first tag with
  | nil =>
    obtain rfl := Option.some.inj h
    simp
  | cons row rows ih =>
    rw [verifyLoop] at h
    split at h
    · cases h
    rename_i hlinked
    obtain ⟨hrows, hlast⟩ := ih h
    refine ⟨fun i r hr => ?_, by simp only [length_cons]; omega⟩
    cases i with
    | zero =>
      obtain rfl : row = r := by simpa using hr
      omega
    | succ i =>
      have := hrows i r (by simpa using hr)
      omega

/-- The view of a verified chain is valid. -/
theorem valid_ofRows (session : Text) {rows : List Row} (h : verifyChain c store rows = some last) :
    Valid (.ofRows store session rows last) := by
  obtain ⟨hrows, hlast⟩ := verifyLoop_numbered h
  refine ⟨fun i row hrow => ?_, fun _ => ⟨?_, rfl⟩⟩
  · have := hrows i row hrow
    omega
  · simpa [ofRows] using hlast

/-! ## Statements -/

/-- Statements written one after another. -/
inductive Stated (c : Codec) (D : Disk → Prop) : Inner → List Content → Inner → Prop where
  | nil {s : Inner} : Stated c D s [] s
  | cons {s s' : Inner} {content : Content} {rest : List Content} (disk : Disk) :
      D disk → s.isLatched = false → s.lastSeq + 1 < 2 ^ 64 → Admissible s content →
      Stated c D (s.committed c disk content) rest s' → Stated c D s (content :: rest) s'

/-- Statements written up to some, the next one not written or not known to be. -/
def Broken (c : Codec) (D : Disk → Prop) (s : Inner) (contents : List Content) (s' : Inner) :
    Prop :=
  ∃ done content rest middle result, contents = done ++ content :: rest ∧
    Stated c D s done middle ∧ Appended c D middle content result s'

theorem stated_statement (hD : D disk) (h : s.statement c disk content = (.ok (), s')) :
    Stated c D s [content] s' := by
  have happend := appended c hD content s
  unfold statement at h
  generalize s.append c disk content = out at h happend
  obtain ⟨result, s''⟩ := out
  cases happend with
  | committed disk hdisk hopen hfits hadmissible =>
    obtain rfl := (Prod.mk.inj h).2
    exact .cons disk hdisk hopen hfits hadmissible .nil
  | latched | present | notCommitted | kept => simp at h
  | lost _ hmem =>
    simp only [mem_cons, not_mem_nil, or_false] at hmem
    rcases hmem with rfl | rfl | rfl <;> simp at h

theorem appended_statement (hD : D disk) (h : s.statement c disk content = (.error e, s')) :
    ∃ result, Appended c D s content result s' := by
  have happend := appended c hD content s
  unfold statement at h
  generalize s.append c disk content = out at h happend
  obtain ⟨result, s''⟩ := out
  refine ⟨result, ?_⟩
  cases result <;> simp only [Prod.mk.injEq] at h <;>
    exact h.2 ▸ happend

theorem stated_statements (hD : ∀ i, D (disks i))
    (h : s.statements c disks i contents = (.ok (), s')) : Stated c D s contents s' := by
  induction contents generalizing i s with
  | nil =>
    obtain rfl := (Prod.mk.inj h).2
    exact .nil
  | cons content rest ih =>
    rw [statements] at h
    split at h
    · rename_i hstatement
      cases stated_statement (hD i) hstatement with
      | cons disk hdisk hopen hfits hadmissible hnil =>
        cases hnil
        exact .cons disk hdisk hopen hfits hadmissible (ih h)
    · simp at h

theorem broken_statements (hD : ∀ i, D (disks i))
    (h : s.statements c disks i contents = (.error e, s')) : Broken c D s contents s' := by
  induction contents generalizing i s with
  | nil => simp [statements] at h
  | cons content rest ih =>
    rw [statements] at h
    split at h
    · rename_i hstatement
      obtain ⟨done, content', rest', middle, result, rfl, hdone, happend⟩ := ih h
      cases stated_statement (hD i) hstatement with
      | cons disk hdisk hopen hfits hadmissible hnil =>
        cases hnil
        exact ⟨content :: done, content', rest', middle, result, rfl,
          .cons disk hdisk hopen hfits hadmissible hdone, happend⟩
    · rename_i hstatement
      obtain ⟨rfl, rfl⟩ : _ = e ∧ _ = s' := by simpa using h
      obtain ⟨result, happend⟩ := appended_statement (hD i) hstatement
      exact ⟨[], content, rest, s, result, rfl, .nil, happend⟩

/-- Written statements are steps of the process. -/
theorem Stated.grows {P : Content → Prop} (h : Stated c D s contents s')
    (hP : ∀ content ∈ contents, P content) : Grows c D P s s' := by
  induction h with
  | nil => exact .refl
  | cons disk hdisk hopen hfits hadmissible _ ih =>
    exact .head (.append (hP _ mem_cons_self) (.committed disk hdisk hopen hfits hadmissible))
      (ih fun content hmem => hP content (mem_cons_of_mem _ hmem))

/-- Written statements stand in the file in their order. -/
theorem Stated.rows (h : Stated c D s contents s') :
    ∃ new, s'.conn = s.conn ++ new ∧ new.map Row.toContent = contents := by
  induction h with
  | nil => exact ⟨[], by simp, rfl⟩
  | @cons s _ content _ disk _ _ _ _ _ ih =>
    obtain ⟨new, heq, hnew⟩ := ih
    refine ⟨s.nextRow c disk content :: new, ?_, ?_⟩
    · rw [heq]
      simp [committed]
    · rw [map_cons, hnew]
      rfl

/-- Written statements neither latch the process nor change what it owes. -/
theorem Stated.same (h : Stated c D s contents s') :
    s'.isLatched = s.isLatched ∧ s'.owed = s.owed := by
  induction h with
  | nil => exact ⟨rfl, rfl⟩
  | cons _ _ _ _ _ _ ih => exact ih

/-! ## Qualification -/

/-- What an opening writes: the session row, the unsettled commitments and the unclean sessions,
each list up to the first that fails. -/
inductive Qualified (c : Codec) (D : Disk → Prop) (store : Text) (o : Opening) (rows : List Row) :
    Except Unqualified Inner → List Row → Prop where
  | refused {e : Unqualified} : Qualified c D store o rows (.error e) rows
  | unopened {session : Text} {last : Nat × Text} {e : Unqualified} {s' : Inner} :
      o.session = some session → verifyChain c store rows = some last →
      Broken c D (.ofRows store session rows last)
        [(ofRows store session rows last).openedStatement] s' →
      Qualified c D store o rows (.error e) s'.conn
  | unsettled {session : Text} {last : Nat × Text} {e : Unqualified} {s₁ s' : Inner} :
      o.session = some session → verifyChain c store rows = some last →
      Stated c D (.ofRows store session rows last)
        [(ofRows store session rows last).openedStatement] s₁ →
      Broken c D s₁ s₁.unsettledStatements s' → Qualified c D store o rows (.error e) s'.conn
  | unclean {session : Text} {last : Nat × Text} {e : Unqualified} {s₁ s₂ s' : Inner} :
      o.session = some session → verifyChain c store rows = some last →
      Stated c D (.ofRows store session rows last)
        [(ofRows store session rows last).openedStatement] s₁ →
      Stated c D s₁ s₁.unsettledStatements s₂ → Broken c D s₂ s₂.uncleanStatements s' →
      Qualified c D store o rows (.error e) s'.conn
  | opened {session : Text} {last : Nat × Text} {s₁ s₂ s' : Inner} :
      o.session = some session → verifyChain c store rows = some last →
      Stated c D (.ofRows store session rows last)
        [(ofRows store session rows last).openedStatement] s₁ →
      Stated c D s₁ s₁.unsettledStatements s₂ → Stated c D s₂ s₂.uncleanStatements s' →
      Qualified c D store o rows (.ok s') s'.conn

theorem qualified (c : Codec) (store : Text) (o : Opening) (hD : ∀ i, D (o.disks i))
    (rows : List Row) :
    Qualified c D store o rows (qualify c store o rows).1 (qualify c store o rows).2 := by
  unfold qualify
  split
  · exact .refused
  split
  · exact .refused
  rename_i last hchain
  have hchain : verifyChain c store rows = some last := by
    split at hchain
    · exact hchain
    · cases hchain
  split
  · exact .refused
  split
  · exact .refused
  rename_i session hsession
  dsimp only
  split
  · rename_i s' hopened
    obtain ⟨result, happend⟩ := appended_statement (hD 0) hopened
    exact .unopened hsession hchain ⟨[], _, [], _, result, rfl, .nil, happend⟩
  · rename_i s₁ hopened
    have hstated := stated_statement (hD 0) hopened
    unfold reconcile
    dsimp only
    generalize hunsettled : s₁.statements c o.disks 1 s₁.unsettledStatements = out
    obtain ⟨result, s₂⟩ := out
    cases result with
    | error e => exact .unsettled hsession hchain hstated (broken_statements hD hunsettled)
    | ok =>
      dsimp only
      generalize hunclean : s₂.statements c o.disks _ s₂.uncleanStatements = out
      obtain ⟨result, s₃⟩ := out
      cases result with
      | error e =>
        exact .unclean hsession hchain hstated (stated_statements hD hunsettled)
          (broken_statements hD hunclean)
      | ok =>
        exact .opened hsession hchain hstated (stated_statements hD hunsettled)
          (stated_statements hD hunclean)

/-- An opening on disks of any kind. -/
theorem qualified_any (c : Codec) (store : Text) (o : Opening) (rows : List Row) :
    Qualified c (fun _ => True) store o rows (qualify c store o rows).1
      (qualify c store o rows).2 :=
  qualified c store o (fun _ => trivial) rows

/-- A store that was opened is valid, not latched, and owes nothing. -/
theorem valid_of_qualify {o : Opening} {rows : List Row} (h : (qualify c store o rows).1 = .ok s) :
    Valid s ∧ s.isLatched = false ∧ s.owed = [] := by
  have hqualified := qualified_any c store o rows
  rw [h] at hqualified
  generalize (qualify c store o rows).2 = rows' at hqualified
  cases hqualified with
  | @opened session last s₁ s₂ _ _ hchain hopened hunsettled hunclean =>
    have hgrows : Grows c _ (fun _ => True) (.ofRows store session rows last) s :=
      ((hopened.grows fun _ _ => trivial).trans (hunsettled.grows fun _ _ => trivial)).trans
        (hunclean.grows fun _ _ => trivial)
    refine ⟨hgrows.kept.valid (valid_ofRows session hchain), ?_, ?_⟩
    · rw [hunclean.same.1, hunsettled.same.1, hopened.same.1]
      rfl
    · rw [hunclean.same.2, hunsettled.same.2, hopened.same.2]
      rfl

end NexusOs.Evidence
