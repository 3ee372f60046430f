import NexusOs.Evidence.Store.History

/-!
# Recovery

While an `unsettled` statement is above every acknowledgement, the store refuses every record and
shows the owner what is not acknowledged. With the reconciliation of every opening, no effect that
started is forgotten across a crash.
-/

namespace NexusOs.Evidence

open Utf8 List Content Inner
open Transition (Run)

variable {kind : Content → Option Text} {x : Text}

/-- The statements of one kind that no acknowledgement covers. -/
def uncovered (kind : Content → Option Text) (rows : List Row) : List (Text × Nat) :=
  (statements kind rows).filter fun entry => !covered rows entry.2

section Knowing

variable {c : Codec} {D : Disk → Prop} {drawn : List Text} {s s' : Inner} {n seq : Nat}
  {disks : Nat → Disk} {written : List EvidenceRecord} {known : List (Text × Nat)}

theorem pos_of_mem_statements {rows : List Row} (h : Numbered rows) {entry : Text × Nat}
    (hmem : entry ∈ statements kind rows) : 0 < entry.2 := by
  obtain ⟨row, hrow, hentry⟩ := mem_filterMap.mp hmem
  obtain ⟨name, -, rfl⟩ := Option.map_eq_some_iff.mp hentry
  obtain ⟨i, hi, rfl⟩ := mem_iff_getElem.mp hrow
  have := h i _ (List.getElem?_eq_getElem hi)
  omega

section

variable (hfile : FileInv drawn s.conn) (hcurrent : Current s)

include hfile hcurrent

/-- The statements known to be above the acknowledgement are those of the file that none covers. -/
theorem perm_uncovered (hknown : known.Perm (statements kind s.conn)) :
    (known.filter fun entry => decide (entry.2 > s.known.acknowledged)).Perm
      (uncovered kind s.conn) := by
  refine (hknown.filter _).trans (.of_eq (filter_congr fun entry hentry => ?_))
  have hpos := pos_of_mem_statements hfile.numbered hentry
  have hiff := acknowledged_lt_iff hfile.formed hpos
  rw [show knownOf s.conn = s.known from hcurrent.known.symm] at hiff
  cases hcovered : covered s.conn entry.2 with
  | true | false => simpa [hcovered] using hiff

theorem perm_unsettled :
    (s.known.unsettled.filter fun entry => decide (entry.2 > s.known.acknowledged)).Perm
      (uncovered unsettled? s.conn) := by
  refine perm_uncovered hfile hcurrent ?_
  rw [show s.known = knownOf s.conn from hcurrent.known]
  exact unsettled_perm hfile.formed hfile.unsettled

theorem perm_unclean :
    (s.known.unclean.filter fun entry => decide (entry.2 > s.known.acknowledged)).Perm
      (uncovered unclean? s.conn) := by
  refine perm_uncovered hfile hcurrent ?_
  rw [show s.known = knownOf s.conn from hcurrent.known]
  exact unclean_perm hfile.formed hfile.unclean

/-- Recovery is required exactly while an `unsettled` statement is not covered. -/
theorem recoveryRequired_iff :
    s.known.recoveryRequired = true ↔ uncovered unsettled? s.conn ≠ [] := by
  have hperm := perm_unsettled hfile hcurrent
  rw [← not_iff_not, not_not]
  constructor
  · intro h
    have hnil : (s.known.unsettled.filter fun entry =>
        decide (entry.2 > s.known.acknowledged)) = [] := by
      simpa [Known.recoveryRequired] using h
    exact perm_nil.mp (hnil ▸ hperm.symm)
  · intro h
    have hnil := perm_nil.mp (h ▸ hperm)
    simpa [Known.recoveryRequired] using hnil

end

/-- The entries a recovery shows. -/
theorem shown_perm {uncovered : List (Text × Nat)}
    (h : (known.filter fun entry => decide (entry.2 > n)).Perm uncovered) :
    (shown known n).Perm (uncovered.map fun entry => (entry.2, short entry.1)) :=
  (mergeSort_perm _ _).trans (h.map _)

/-- A store that is not latched shows a recovery exactly while one is required. -/
theorem recovery_isSome_iff (hfile : FileInv drawn s.conn) (hcurrent : Current s)
    (hopen : s.isLatched = false) :
    s.recovery.isSome = true ↔ uncovered unsettled? s.conn ≠ [] := by
  rw [← recoveryRequired_iff hfile hcurrent]
  unfold recovery
  cases hrequired : s.known.recoveryRequired with
  | false => simp
  | true =>
    have hne := (recoveryRequired_iff hfile hcurrent).mp hrequired
    have hperm := shown_perm (perm_unsettled hfile hcurrent)
    have hshown : shown s.known.unsettled s.known.acknowledged ≠ [] := by
      intro hnil
      rw [hnil] at hperm
      exact hne (map_eq_nil_iff.mp (nil_perm.mp hperm))
    simp [hopen, hshown]

/-- The numbers of all statements that are not covered. -/
def uncoveredNumbers (rows : List Row) : List Nat :=
  (uncovered unsettled? rows ++ uncovered unclean? rows).map Prod.snd

/-- A recovery lists exactly the uncovered statements, and the highest number. -/
theorem recovery_lists (hfile : FileInv drawn s.conn) (hcurrent : Current s) {r : Recovery}
    (h : s.recovery = some r) :
    r.unsettled.Perm ((uncovered unsettled? s.conn).map fun e => short e.1) ∧
      r.uncleanSessions.Perm ((uncovered unclean? s.conn).map fun e => short e.1) ∧
      r.coversThrough ∈ uncoveredNumbers s.conn ∧
      ∀ n ∈ uncoveredNumbers s.conn, n ≤ r.coversThrough := by
  unfold recovery at h
  split at h
  · cases h
  have hunsettled := shown_perm (perm_unsettled hfile hcurrent)
  have hunclean := shown_perm (perm_unclean hfile hcurrent)
  generalize shown s.known.unsettled s.known.acknowledged = unsettled at h hunsettled
  generalize shown s.known.unclean s.known.acknowledged = unclean at h hunclean
  obtain ⟨coversThrough, hmax, rfl⟩ := Option.map_eq_some_iff.mp h
  obtain ⟨hmem, hle⟩ := List.max?_eq_some_iff.mp hmax
  have hnumbers : ((unsettled ++ unclean).map Prod.fst).Perm (uncoveredNumbers s.conn) := by
    have := (hunsettled.append hunclean).map Prod.fst
    simpa [uncoveredNumbers, Function.comp_def] using this
  refine ⟨?_, ?_, hnumbers.mem_iff.mp hmem, fun n hn => hle n (hnumbers.mem_iff.mpr hn)⟩
  · simpa [Function.comp_def] using hunsettled.map Prod.snd
  · simpa [Function.comp_def] using hunclean.map Prod.snd

/-- An acknowledgement that was written: the records owed, then the acknowledgement. -/
theorem acknowledge_ok (h : s.acknowledge c disks n = (some seq, written, s')) :
    ∃ middle disk, Pays c (fun _ => True) s true middle ∧
      middle.isLatched = false ∧ middle.lastSeq + 1 < 2 ^ 64 ∧
      Admissible middle (acknowledgement n) ∧
        s' = middle.committed c disk (acknowledgement n) := by
  have hpays := pays_payOwed (D := fun _ => True) c disks (fun _ => trivial) s
  unfold acknowledge at h
  split at h
  · cases h
  generalize s.payOwed c disks = out at h hpays
  obtain ⟨paid, middle, written'⟩ := out
  cases paid with
  | false => simp at h
  | true =>
    have happend := @appended (disks s.owed.length) (fun _ => True) c trivial
      (acknowledgement n) middle
    dsimp only at h
    generalize middle.append c (disks s.owed.length) _ = out at h happend
    obtain ⟨result, s''⟩ := out
    cases happend with
    | committed disk _ hopen hfits hadmissible =>
      obtain ⟨-, -, rfl⟩ : _ = seq ∧ _ = written ∧ _ = s' := by simpa using h
      exact ⟨middle, disk, hpays, hopen, hfits, hadmissible, rfl⟩
    | latched | present | notCommitted | kept => simp at h
    | lost _ hmem =>
      simp only [mem_cons, not_mem_nil, or_false] at hmem
      rcases hmem with rfl | rfl | rfl <;> simp at h

/-- Acknowledging through `n` covers exactly the statements up to `n` in addition. -/
theorem uncovered_acknowledged {rows new : List Row} {row : Row}
    (hnew : ∀ r ∈ new, Owable r.toContent) (hrow : row.toContent = acknowledgement n) :
    uncovered unsettled? (rows ++ new ++ [row]) =
      (uncovered unsettled? rows).filter fun entry => decide (n < entry.2) := by
  have hstatements : statements unsettled? (rows ++ new ++ [row]) =
      statements unsettled? rows := by
    have hnone : statements unsettled? (new ++ [row]) = [] := by
      refine filterMap_eq_nil_iff.mpr fun r hr => ?_
      rcases mem_append.mp hr with hr | hr
      · rw [(hnew r hr).unsettled]
        rfl
      · rw [mem_singleton.mp hr, hrow]
        rfl
    rw [append_assoc]
    unfold statements at hnone ⊢
    rw [filterMap_append, hnone, append_nil]
  have hcovered : ∀ k, covered (rows ++ new ++ [row]) k = (covered rows k || decide (k ≤ n)) := by
    intro k
    have hnone : covered new k = false := by
      refine any_eq_false.mpr fun r hr => ?_
      rw [(hnew r hr).acknowledged]
      simp
    unfold covered at hnone ⊢
    rw [any_append, any_append, hnone]
    simp [hrow, acknowledgement, acknowledged?]
  unfold uncovered
  rw [hstatements, filter_filter]
  refine filter_congr fun entry _ => ?_
  rw [hcovered, Bool.not_or, Bool.and_comm, ← decide_not]
  simp only [not_le]

/-- Acknowledging through `n` ends the recovery exactly if `n` reaches the last uncovered
`unsettled` statement. -/
theorem acknowledge_ends_iff (hfile : FileInv drawn s.conn) (hvalid : Valid s)
    (howes : Owes Owable s) (h : s.acknowledge c disks n = (some seq, written, s')) :
    s'.recovery = none ↔ ∀ entry ∈ uncovered unsettled? s.conn, entry.2 ≤ n := by
  obtain ⟨middle, disk, hpays, hopen, hfits, hadmissible, rfl⟩ := acknowledge_ok h
  have hmiddle := (hpays.grows howes).kept
  have happend : Appended c (fun _ => True) middle (acknowledgement n) _ _ :=
    .committed disk trivial hopen hfits hadmissible
  have hvalid' := happend.valid (hmiddle.valid hvalid)
  have hfile' : FileInv drawn (middle.committed c disk (acknowledgement n)).conn := by
    have hgrows : Grows c _ Called s (middle.committed c disk (acknowledgement n)) :=
      .tail (hpays.grows fun o ho => (howes o ho).toCalled)
        (.append ⟨.acknowledged n, rfl, rfl, rfl⟩ happend)
    exact hfile.called hvalid hgrows.kept
  obtain ⟨new, heq, hnew⟩ := hmiddle.rows
  have hrows : (middle.committed c disk (acknowledgement n)).conn =
      s.conn ++ new ++ [middle.nextRow c disk (acknowledgement n)] := by
    rw [← heq]
    rfl
  have hiff := recovery_isSome_iff hfile' (hvalid'.current hopen) hopen
  rw [hrows, uncovered_acknowledged hnew rfl] at hiff
  rw [← Option.not_isSome_iff_eq_none, hiff, not_not]
  simp

end Knowing

/-! ## Histories -/

/-- A file, and the process that holds it, if one does. -/
structure World where
  rows : List Row
  process : Option Inner

/-- A new file. -/
def World.new : World where
  rows := []
  process := none

/-- What happens to a store. -/
inductive Act where
  | opening (o : Opening)
  | call (event : Event)
  | crash

/-- The session id an opening drew. -/
def Act.drawn? : Act → Option Text
  | .opening o => o.session
  | _ => none

/-- One thing that happens to a store. A crash inside a call or an opening leaves the file as faults
in all its later appends do. -/
inductive Happens (c : Codec) (store : Text) : World → Act → World → Prop where
  | opening {w : World} (o : Opening) : w.process = none →
      Happens c store w (.opening o)
        ⟨(qualify c store o w.rows).2, (qualify c store o w.rows).1.toOption⟩
  | call {w : World} {s s' : Inner} {event : Event} : w.process = some s → step c s event s' →
      Happens c store w (.call event) ⟨s'.conn, some s'⟩
  | crash {w : World} : Happens c store w .crash ⟨w.rows, none⟩

/-- A gate answered `Ok` for the `started` record of a commitment. -/
def Act.starts (x : Text) (act : Act) : Prop :=
  ∃ record seq latched, act = .call ⟨.gate record, .result (some seq), latched⟩ ∧
    record.phase = .started ∧ record.commitment = some x

/-- What every world keeps. -/
structure WorldInv (drawn : List Text) (w : World) : Prop where
  file : FileInv drawn w.rows
  process : ∀ s, w.process = some s → s.conn = w.rows ∧ Valid s ∧ Owes Owable s

section Histories

variable {c : Codec} {store : Text} {drawn : List Text} {w w' : World} {act : Act}

/-- Everything that happens keeps it. -/
theorem WorldInv.happens (h : WorldInv drawn w) (hstep : Happens c store w act w')
    (hnew : ∀ session, act.drawn? = some session → session ∉ drawn) :
    WorldInv (drawn ++ act.drawn?.toList) w' := by
  cases hstep with
  | opening o =>
    refine ⟨h.file.qualified hnew (qualified_any c store o w.rows), fun s hs => ?_⟩
    have hok : (qualify c store o w.rows).1 = .ok s := by
      cases hresult : (qualify c store o w.rows).1 with
      | error => simp [hresult, Except.toOption] at hs
      | ok => simpa [hresult, Except.toOption] using hs
    obtain ⟨hvalid, -, howed⟩ := valid_of_qualify hok
    have hq := qualified_any c store o w.rows
    rw [hok] at hq
    refine ⟨?_, hvalid, by simp [Owes, howed]⟩
    generalize (qualify c store o w.rows).2 = rows at hq
    cases hq
    rfl
  | call hprocess hstep =>
    obtain ⟨hconn, hvalid, howes⟩ := h.process _ hprocess
    have hkept := step_called hstep howes
    refine ⟨?_, fun s hs => ?_⟩
    · have hfile : FileInv drawn _ := (hconn ▸ h.file).called hvalid hkept
      simpa [Act.drawn?] using hfile
    · obtain rfl := Option.some.inj hs
      exact ⟨rfl, hkept.valid hvalid, step_owable hstep howes⟩
  | crash => exact ⟨by simpa [Act.drawn?] using h.file, by simp⟩

/-- Rows are only added. -/
theorem Happens.rows (h : Happens c store w act w') (hw : WorldInv drawn w) :
    w.rows <+: w'.rows := by
  cases h with
  | opening o =>
    have hq := qualified_any c store o w.rows
    generalize (qualify c store o w.rows).1 = result at hq
    generalize (qualify c store o w.rows).2 = rows at hq
    cases hq with
    | refused => exact prefix_refl _
    | unopened _ _ hbroken =>
      obtain ⟨new, heq, -⟩ := hbroken.stage.2
      exact ⟨new, heq.symm⟩
    | unsettled _ _ hopened hbroken =>
      obtain ⟨new, heq, -⟩ := hopened.rows
      obtain ⟨new', heq', -⟩ := hbroken.stage.2
      exact ⟨new ++ new', by rw [heq', heq, append_assoc]; rfl⟩
    | unclean _ _ hopened hunsettled hbroken =>
      obtain ⟨new, heq, -⟩ := hopened.rows
      obtain ⟨new', heq', -⟩ := hunsettled.rows
      obtain ⟨new'', heq'', -⟩ := hbroken.stage.2
      exact ⟨new ++ (new' ++ new''), by simp [heq'', heq', heq, ofRows]⟩
    | opened _ _ hopened hunsettled hunclean =>
      obtain ⟨new, heq, -⟩ := hopened.rows
      obtain ⟨new', heq', -⟩ := hunsettled.rows
      obtain ⟨new'', heq'', -⟩ := hunclean.rows
      exact ⟨new ++ (new' ++ new''), by simp [heq'', heq', heq, ofRows]⟩
  | call hprocess hstep =>
    obtain ⟨hconn, -, -⟩ := hw.process _ hprocess
    obtain ⟨new, heq, -⟩ := (step_kept hstep).rows
    exact ⟨new, by rw [← hconn]; exact heq.symm⟩
  | crash => exact prefix_refl _

variable {acts : List Act}

/-- A history keeps it, and only adds rows. -/
theorem WorldInv.run (h : WorldInv drawn w) (hrun : Run (Happens c store) w acts w')
    (hids : (drawn ++ acts.filterMap Act.drawn?).Nodup) :
    WorldInv (drawn ++ acts.filterMap Act.drawn?) w' ∧ w.rows <+: w'.rows := by
  induction hrun generalizing drawn with
  | nil => exact ⟨by simpa using h, prefix_refl _⟩
  | @cons w middle w' act acts hstep _ ih =>
    have hsplit : drawn ++ (act :: acts).filterMap Act.drawn? =
        (drawn ++ act.drawn?.toList) ++ acts.filterMap Act.drawn? := by
      cases hdrawn : act.drawn? <;> simp [hdrawn]
    rw [hsplit] at hids ⊢
    have hnew : ∀ session, act.drawn? = some session → session ∉ drawn := by
      intro session hsession hmem
      rw [hsession] at hids
      exact (nodup_append.mp (nodup_append.mp hids).1).2.2 session hmem session (by simp) rfl
    obtain ⟨hlast, hrows⟩ := ih (h.happens hstep hnew) hids
    exact ⟨hlast, (hstep.rows h).trans hrows⟩

/-- A gate that answered `Ok` left its record in the file. -/
theorem started_row (hrun : Run (Happens c store) .new acts w)
    (hids : (acts.filterMap Act.drawn?).Nodup) (hact : act ∈ acts) (hstarts : act.starts x) :
    ∃ row ∈ w.rows, row.phase = .record .started ∧ row.commitment = some x := by
  obtain ⟨before, after, source, target, rfl, hbefore, hstep, hafter⟩ := hrun.of_mem hact
  obtain ⟨record, seq, latched, rfl, hphase, hcommitment⟩ := hstarts
  have hfirst : WorldInv [] World.new := ⟨fileInv_nil [], by simp [World.new]⟩
  rw [filterMap_append] at hids
  have hsource := (hfirst.run hbefore (by simpa using (nodup_append.mp hids).1)).1
  have htarget := hsource.happens hstep (by simp [Act.drawn?])
  cases hstep with
  | call hprocess hstep =>
    obtain ⟨-, hvalid, -⟩ := hsource.process _ hprocess
    obtain ⟨-, hholds⟩ := step_holds hstep hvalid rfl
    obtain ⟨row, hrow, hcontent⟩ := Option.map_eq_some_iff.mp hholds
    have hids' : (([] ++ before.filterMap Act.drawn?) ++ after.filterMap Act.drawn?).Nodup := by
      simpa [Act.drawn?, filterMap_cons] using hids
    have hmem : row ∈ w.rows := (htarget.run hafter (by simpa [Act.drawn?] using hids')).2.subset
      (mem_of_getElem? hrow)
    refine ⟨row, hmem, ?_, ?_⟩
    · rw [hcontent]
      simp [Call.offer, EvidenceRecord.content, hphase]
    · rw [hcontent]
      simpa [Call.offer, EvidenceRecord.content] using hcommitment

end Histories

/-- What is remembered in a world after `acts`. -/
structure Remembered (c : Codec) (acts : List Act) (w : World) : Prop where
  /-- After an opening, a started commitment has an end row or one `unsettled` statement. -/
  reconciled : ∀ before o, acts = before ++ [.opening o] → w.process.isSome = true →
    ∀ x, (∃ act ∈ before, act.starts x) →
      HasEnd w.rows x ∨ (w.rows.filter fun row => row.unsettled? = some x).length = 1
  /-- While an `unsettled` statement is above every acknowledgement, every record is refused. -/
  refused : ∀ s, w.process = some s → uncovered unsettled? w.rows ≠ [] →
    ∀ disks record, (s.gate c disks record).1 = none
  /-- A recovery is shown exactly then, if the store is not latched. -/
  required : ∀ s, w.process = some s → s.isLatched = false →
    (s.recovery.isSome = true ↔ uncovered unsettled? w.rows ≠ [])
  /-- A recovery lists exactly the statements above every acknowledgement, and the highest. -/
  listed : ∀ s r, w.process = some s → s.recovery = some r →
    r.unsettled.Perm ((uncovered unsettled? w.rows).map fun e => short e.1) ∧
      r.uncleanSessions.Perm ((uncovered unclean? w.rows).map fun e => short e.1) ∧
      r.coversThrough ∈ uncoveredNumbers w.rows ∧
      ∀ n ∈ uncoveredNumbers w.rows, n ≤ r.coversThrough
  /-- Acknowledging ends the recovery exactly if it reaches the last `unsettled` statement listed;
  so does acknowledging what the recovery covers. -/
  acknowledged : ∀ s r, w.process = some s → s.recovery = some r →
    ∀ disks n seq written s', s.acknowledge c disks n = (some seq, written, s') →
      (s'.recovery = none ↔ ∀ entry ∈ uncovered unsettled? w.rows, entry.2 ≤ n) ∧
        (n = r.coversThrough → s'.recovery = none)

/-- The statements of a commitment are as many as it is named. -/
theorem length_filter_named {rows : List Row} (hnodup : (named kind rows).Nodup)
    (hmem : x ∈ named kind rows) :
    (rows.filter fun row => kind row.toContent = some x).length = 1 := by
  have hcount : (named kind rows).count x =
      (rows.filter fun row => kind row.toContent = some x).length := by
    rw [named, count_filterMap, countP_eq_length_filter]
    congr 1
    refine filter_congr fun row _ => ?_
    cases kind row.toContent with
    | none => simp
    | some y => by_cases h : y = x <;> simp [h]
  rw [← hcount, count_eq_one_of_mem hnodup hmem]

/-- No started effect is forgotten across a crash, in every history of a store over any number of
sessions with any faults, if no session id is drawn twice. -/
theorem started_effects_are_remembered {c : Codec} {store : Text} {acts : List Act} {w : World}
    (hrun : Run (Happens c store) .new acts w) (hids : (acts.filterMap Act.drawn?).Nodup) :
    Remembered c acts w := by
  have hfirst : WorldInv [] World.new := ⟨fileInv_nil [], by simp [World.new]⟩
  have hw := (hfirst.run hrun (by simpa using hids)).1
  have hprocess : ∀ s, w.process = some s →
      FileInv ([] ++ acts.filterMap Act.drawn?) s.conn ∧ s.conn = w.rows ∧ Valid s ∧
        Owes Owable s := by
    intro s hs
    obtain ⟨hconn, hvalid, howes⟩ := hw.process s hs
    exact ⟨hconn ▸ hw.file, hconn, hvalid, howes⟩
  have hopen : ∀ (s : Inner) r, s.recovery = some r → s.isLatched = false := by
    intro s r hr
    by_contra hlatched
    simp [recovery, hlatched] at hr
  refine ⟨?_, ?_, ?_, ?_, ?_⟩
  · rintro before o rfl hsome x ⟨act, hact, hstarts⟩
    obtain ⟨middle, hbefore, hlast⟩ := Run.append_iff.mp hrun
    rw [filterMap_append] at hids
    have hids' := (nodup_append.mp hids).1
    have hmiddle := (hfirst.run hbefore (by simpa using hids')).1
    have hx := started_row hbefore hids' hact hstarts
    obtain ⟨last, hstep, hnil⟩ := Run.cons_iff.mp hlast
    obtain rfl := Run.nil_iff.mp hnil
    cases hstep with
    | opening _ _ =>
      have hq := qualified_any c store o middle.rows
      cases hresult : (qualify c store o middle.rows).1 with
      | error e => simp [hresult, Except.toOption] at hsome
      | ok s =>
        rw [hresult] at hq
        have hnew : ∀ session, o.session = some session →
            session ∉ [] ++ before.filterMap Act.drawn? := by
          intro session hsession hmem
          refine (nodup_append.mp hids).2.2 session (by simpa using hmem) session ?_ rfl
          simp [Act.drawn?, hsession]
        refine (Evidence.reconciled hmiddle.file hnew hq hx).imp_right fun hmem => ?_
        exact length_filter_named hw.file.unsettled hmem
  · intro s hs hne disks record
    obtain ⟨hfile, hconn, hvalid, -⟩ := hprocess s hs
    unfold gate
    by_cases hlatched : s.isLatched = true
    · simp [hlatched]
    · have hcurrent := hvalid.current (by simpa using hlatched)
      rw [← hconn, ← recoveryRequired_iff hfile hcurrent] at hne
      simp [hne]
  · intro s hs hlatched
    obtain ⟨hfile, hconn, hvalid, -⟩ := hprocess s hs
    rw [← hconn]
    exact recovery_isSome_iff hfile (hvalid.current hlatched) hlatched
  · intro s r hs hr
    obtain ⟨hfile, hconn, hvalid, -⟩ := hprocess s hs
    rw [← hconn]
    exact recovery_lists hfile (hvalid.current (hopen s r hr)) hr
  · intro s r hs hr disks n seq written s' hack
    obtain ⟨hfile, hconn, hvalid, howes⟩ := hprocess s hs
    have hiff := acknowledge_ends_iff hfile hvalid howes hack
    rw [← hconn]
    refine ⟨hiff, fun hn => hiff.mpr fun entry hentry => ?_⟩
    obtain ⟨-, -, -, hle⟩ := recovery_lists hfile (hvalid.current (hopen s r hr)) hr
    exact hn ▸ hle _ (mem_map_of_mem (mem_append_left _ hentry))

/-! ## A crash -/

/-- SHA-256 of the tagged fields of the rows below. -/
def crashDigests : List Framing.Bytes := sampleDigests.take 2 ++ [
  0x982c03792a68f1775c115738213b31840bf41c0a0bd399e9c4ec72e49901298b,
  0x82960e7a146dead9eae887957d68afd8395607d99178bb45fe7be88f7bd83398,
  0x79490b301d4e4f3d8001fbe070c3cef77cb1bbfc33a8e4cd41d2112cb004302a,
  0x28da740e6091dec44f749314f3e42b3bd11651648c3a01472550f35e04f6cfe5].map (Framing.beBytes 32)

/-- SHA-256 and `serde_json` on the rows below. -/
def crashCodec : Codec := codecOf crashDigests

/-- The opening after the crash. -/
def secondOpening : Opening := soundOpening "0918273645546372819a0bbccddeeff1" 1002

/-- An effect starts, and the process crashes. -/
def crashActs : List Act := [
  .opening sampleOpening,
  .call ⟨.gate (sampleRecord .started "c0ffee01"), .result (some 2), false⟩,
  .crash]

/-- The opening after the crash shows a recovery through row 5, and acknowledging row 4 ends it. -/
def endsEarly (rows : List Row) : Bool :=
  match (qualify crashCodec sampleStore secondOpening rows).1 with
  | .error _ => false
  | .ok s =>
    let (seq, _, s') := s.acknowledge crashCodec (fun _ => soundDisk 1005) 4
    s.recovery.map Recovery.coversThrough = some 5 && seq = some 6 && s'.recovery.isNone

theorem crash_run :
    ∃ rows, Run (Happens crashCodec sampleStore) .new crashActs ⟨rows, none⟩ ∧
      endsEarly rows = true := by
  refine ⟨_, .cons (.opening _ rfl) (.cons (.call rfl (step_run _ (fun _ => soundDisk 1001) _ _))
    (.cons .crash (.nil _))), ?_⟩
  decide +kernel

theorem crash_ids : ((crashActs ++ [Act.opening secondOpening]).filterMap Act.drawn?).Nodup := by
  decide

/-- The store after the crash is open, and acknowledging row 4 ends a recovery through row 5. -/
theorem crash_reopened :
    ∃ s r seq written s', Run (Happens crashCodec sampleStore) .new
        (crashActs ++ [.opening secondOpening]) ⟨s.conn, some s⟩ ∧
      s.recovery = some r ∧ r.coversThrough = 5 ∧
      s.acknowledge crashCodec (fun _ => soundDisk 1005) 4 = (some seq, written, s') ∧
      s'.recovery = none := by
  obtain ⟨rows, hrun, hends⟩ := crash_run
  have hopening := hrun.append (.single (.opening secondOpening rfl))
  have hq := qualified_any crashCodec sampleStore secondOpening rows
  unfold endsEarly at hends
  generalize qualify crashCodec sampleStore secondOpening rows = out at hends hopening hq
  obtain ⟨result, rows'⟩ := out
  cases hq with
  | opened =>
    rename_i s _ _ _ _ _
    simp only [Bool.and_eq_true, decide_eq_true_eq, Option.isNone_iff_eq_none] at hends
    obtain ⟨⟨hcovers, hseq⟩, hnone⟩ := hends
    obtain ⟨r, hr, hr5⟩ := Option.map_eq_some_iff.mp hcovers
    exact ⟨s, r, 6, _, _, hopening, hr, hr5, Prod.ext hseq rfl, hnone⟩
  | refused | unopened | unsettled | unclean => simp at hends

theorem crash_is_remembered :
    ∃ w, Run (Happens crashCodec sampleStore) .new (crashActs ++ [.opening secondOpening]) w ∧
      ((crashActs ++ [Act.opening secondOpening]).filterMap Act.drawn?).Nodup ∧
      w.process.isSome = true ∧
      Remembered crashCodec (crashActs ++ [.opening secondOpening]) w := by
  obtain ⟨s, -, -, -, -, hrun, -⟩ := crash_reopened
  exact ⟨_, hrun, crash_ids, rfl, started_effects_are_remembered hrun crash_ids⟩

/-- Acknowledging less than a recovery covers may end it: unclean sessions are stated after the last
`unsettled` one. -/
theorem acknowledging_less_may_end_recovery :
    ¬ ∀ (c : Codec) (store : Text) (acts : List Act) (w : World),
        Run (Happens c store) .new acts w → (acts.filterMap Act.drawn?).Nodup →
        ∀ s r, w.process = some s → s.recovery = some r →
        ∀ disks n seq written s', s.acknowledge c disks n = (some seq, written, s') →
        n < r.coversThrough → s'.recovery ≠ none := by
  intro h
  obtain ⟨s, r, seq, written, s', hrun, hr, hr5, hack, hnone⟩ := crash_reopened
  exact h _ _ _ _ hrun crash_ids s r rfl hr _ _ _ _ _ hack (by omega) hnone

end NexusOs.Evidence
