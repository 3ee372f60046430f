import NexusOs.Evidence.Store.Known
import NexusOs.Evidence.Store.Session

/-!
# The history of a store

A store over any number of sessions, each ended by a crash. The file keeps its order through all of
them (`FileInv`), so a commitment that started is ended or stated to be unsettled after every
opening.
-/

namespace NexusOs.Evidence

open Utf8 List Content
open Transition (Run)

/-! ## The file over its whole history -/

variable {rows : List Row} {contents : List Content} (kind : Content → Option Text)

/-- What the file keeps, if the sessions drawn so far do not repeat. -/
structure FileInv (drawn : List Text) (rows : List Row) : Prop where
  formed : AllFormed rows
  numbered : Numbered rows
  once : Once rows
  opened : (named opened? rows).Nodup
  drawn : named opened? rows ⊆ drawn
  unclean : (named unclean? rows).Nodup

theorem fileInv_nil (drawn : List Text) : FileInv drawn [] := by
  constructor <;> simp [AllFormed, Numbered, Once, named]

variable {drawn : List Text} {s s' : Inner}

theorem FileInv.mono {drawn' : List Text} (h : FileInv drawn rows) (hle : drawn ⊆ drawn') :
    FileInv drawn' rows :=
  { h with drawn := fun _ hmem => hle (h.drawn hmem) }

theorem named_append (rows rows' : List Row) :
    named kind (rows ++ rows') = named kind rows ++ named kind rows' :=
  filterMap_append

theorem named_eq (rows : List Row) : named kind rows = (rows.map Row.toContent).filterMap kind := by
  rw [filterMap_map]
  rfl

/-- No commitment has two `unsettled` statements. -/
theorem FileInv.unsettled (h : FileInv drawn rows) : (named unsettled? rows).Nodup := by
  rw [named, List.Nodup, pairwise_filterMap]
  refine h.once.imp fun {a b} hab x hx y hy hxy => hab ?_
  have hphase : ∀ {content : Content} {x}, content.unsettled? = some x →
      content.phase = .unsettled ∧ content.commitment = some x := by
    intro content x h
    unfold unsettled? at h
    split at h
    · exact ⟨‹_›, h⟩
    · cases h
  obtain ⟨hap, hac⟩ := hphase hx
  obtain ⟨hbp, hbc⟩ := hphase hy
  exact ⟨by rw [hbp]; rfl, by rw [hbc]; rfl, hap.trans hbp.symm, by rw [hac, hbc, hxy]⟩

/-- The file after some of the statements `contents` were written. -/
theorem FileInv.stage (h : FileInv drawn s.conn)
    (hvalid : Valid s) (hkept : Kept (· ∈ contents) s s')
    (hrows : ∃ new, s'.conn = s.conn ++ new ∧ new.map Row.toContent <+: contents)
    (hformed : ∀ content ∈ contents, Formed content)
    (hopened : (named opened? s.conn ++ contents.filterMap opened?).Nodup)
    (hdrawn : contents.filterMap opened? ⊆ drawn)
    (hunclean : (named unclean? s.conn ++ contents.filterMap unclean?).Nodup) :
    FileInv drawn s'.conn := by
  obtain ⟨new, heq, hinitial⟩ := hrows
  have hsub : ∀ kind : Content → Option Text,
      List.Sublist (named kind new) (contents.filterMap kind) := fun kind =>
    named_eq kind new ▸ (hinitial.sublist.filterMap kind)
  refine ⟨?_, (hkept.valid hvalid).numbered, hkept.once h.once, ?_, ?_, ?_⟩
  · intro row hrow
    rw [heq] at hrow
    rcases mem_append.mp hrow with hrow | hrow
    · exact h.formed row hrow
    · exact hformed _ (hinitial.subset (mem_map_of_mem hrow))
  · rw [heq, named_append]
    exact hopened.sublist ((hsub _).append_left _)
  · rw [heq, named_append]
    exact append_subset.mpr ⟨h.drawn, fun _ hmem => hdrawn ((hsub _).subset hmem)⟩
  · rw [heq, named_append]
    exact hunclean.sublist ((hsub _).append_left _)

/-- Statements that were written, all or up to some. -/
theorem Stated.stage {c : Codec} {D : Disk → Prop} (h : Stated c D s contents s') :
    Kept (· ∈ contents) s s' ∧
      ∃ new, s'.conn = s.conn ++ new ∧ new.map Row.toContent <+: contents := by
  obtain ⟨new, heq, hnew⟩ := h.rows
  exact ⟨(h.grows fun _ hmem => hmem).kept, new, heq, hnew ▸ prefix_refl _⟩

theorem Broken.stage {c : Codec} {D : Disk → Prop} (h : Broken c D s contents s') :
    Kept (· ∈ contents) s s' ∧
      ∃ new, s'.conn = s.conn ++ new ∧ new.map Row.toContent <+: contents := by
  obtain ⟨done, content, rest, middle, result, rfl, hdone, happend⟩ := h
  have hmiddle : Grows c D (· ∈ done ++ content :: rest) s middle :=
    hdone.grows fun _ hmem => mem_append_left _ hmem
  refine ⟨Grows.kept (hmiddle.tail (.append (by simp) happend)), ?_⟩
  obtain ⟨new, heq, hnew⟩ := hdone.rows
  rcases happend.rows with hsame | ⟨row, hrow, hsame⟩
  · exact ⟨new, hsame.trans heq, hnew ▸ prefix_append ..⟩
  · refine ⟨new ++ [row], by rw [hsame, heq, append_assoc], ?_⟩
    rw [map_append, hnew, map_singleton, hrow]
    exact ⟨rest, by simp⟩

section Opening

variable {c : Codec} {D : Disk → Prop} {drawn : List Text} {s s' : Inner} {store : Text}
  {o : Opening} {rows' : List Row}

/-- What a stage of an opening leaves. -/
def Staged (c : Codec) (D : Disk → Prop) (s : Inner) (contents : List Content) (s' : Inner) :
    Prop :=
  Stated c D s contents s' ∨ Broken c D s contents s'

theorem Staged.stage (h : Staged c D s contents s') :
    Kept (· ∈ contents) s s' ∧
      ∃ new, s'.conn = s.conn ++ new ∧ new.map Row.toContent <+: contents :=
  h.elim Stated.stage Broken.stage

section

variable (h : FileInv drawn s.conn)

include h

/-- The session row of a newly drawn session. -/
theorem FileInv.opened_stage (hvalid : Valid s) (hstage : Staged c D s [s.openedStatement] s')
    (hnew : s.session ∉ drawn) : FileInv (drawn ++ [s.session]) s'.conn := by
  obtain ⟨hkept, hrows⟩ := hstage.stage
  refine (h.mono (subset_append_left _ _)).stage hvalid hkept hrows ?_ ?_ ?_ ?_
  · simpa [Inner.openedStatement] using Formed.sessionOpened s.session
  · simp only [nodup_append]
    refine ⟨h.opened, nodup_singleton _, fun a ha b hb heq => hnew (h.drawn ?_)⟩
    exact (heq.trans (mem_singleton.mp hb)) ▸ ha
  · simp [Inner.openedStatement, opened?]
  · simpa [Inner.openedStatement, unclean?, filterMap_cons] using h.unclean

/-- The `unsettled` statements. -/
theorem FileInv.unsettled_stage (hvalid : Valid s)
    (hstage : Staged c D s s.unsettledStatements s') : FileInv drawn s'.conn := by
  obtain ⟨hkept, hrows⟩ := hstage.stage
  have hnone : ∀ kind : Content → Option Text,
      (∀ x n, kind ⟨.unsettled, some x, .unsettled x n⟩ = none) →
      s.unsettledStatements.filterMap kind = [] := by
    intro kind hkind
    rw [filterMap_eq_nil_iff]
    intro content hcontent
    obtain ⟨entry, -, rfl⟩ := mem_map.mp hcontent
    exact hkind _ _
  have hopened := hnone opened? fun _ _ => rfl
  have hunclean := hnone unclean? fun _ _ => rfl
  refine h.stage hvalid hkept hrows ?_ ?_ ?_ ?_
  · intro content hcontent
    obtain ⟨entry, -, rfl⟩ := mem_map.mp hcontent
    exact .unsettled _ _
  · simpa [hopened] using h.opened
  · simp [hopened]
  · simpa [hunclean] using h.unclean

/-- A session has an `unclean_session` statement exactly if the store knows it. -/
theorem FileInv.mem_unclean (hcurrent : Current s) {session : Text} :
    KeyMap.contains session s.known.unclean = true ↔ session ∈ named unclean? s.conn := by
  have hknown : s.known = knownOf s.conn := hcurrent.known
  rw [KeyMap.contains_iff, hknown, ← map_fst_statements, mem_map]
  have hperm := unclean_perm h.formed h.unclean
  constructor
  · rintro ⟨n, hmem⟩
    exact ⟨_, hperm.mem_iff.mp hmem, rfl⟩
  · rintro ⟨⟨session', n⟩, hmem, rfl⟩
    exact ⟨n, hperm.mem_iff.mpr hmem⟩

/-- The `unclean_session` statements. -/
theorem FileInv.unclean_stage (hvalid : Valid s) (hopen : s.isLatched = false)
    (hstage : Staged c D s s.uncleanStatements s') : FileInv drawn s'.conn := by
  obtain ⟨hkept, hrows⟩ := hstage.stage
  have hcurrent := hvalid.current hopen
  have hknown : s.known = knownOf s.conn := hcurrent.known
  have hopened : s.uncleanStatements.filterMap opened? = [] := by
    rw [filterMap_eq_nil_iff]
    intro content hcontent
    obtain ⟨session, -, rfl⟩ := mem_map.mp hcontent
    rfl
  -- the sessions stated are some of those opened, and have no statement yet
  obtain ⟨sessions, hsessions, hsublist, hfresh⟩ : ∃ sessions : List Text,
      s.uncleanStatements.filterMap unclean? = sessions ∧
      List.Sublist sessions (named opened? s.conn) ∧
      ∀ session ∈ sessions, session ∉ named unclean? s.conn := by
    refine ⟨_, rfl, ?_, ?_⟩
    · unfold Inner.uncleanStatements
      rw [filterMap_map, ← opened_eq h.formed, ← hknown]
      simp only [Function.comp_def, unclean?, filterMap_some]
      exact filter_sublist
    · intro session hmem hunclean
      rw [← h.mem_unclean hcurrent] at hunclean
      unfold Inner.uncleanStatements at hmem
      rw [filterMap_map] at hmem
      simp only [Function.comp_def, unclean?] at hmem
      simp [hunclean] at hmem
  refine h.stage hvalid hkept hrows ?_ ?_ ?_ ?_
  · intro content hcontent
    obtain ⟨session, -, rfl⟩ := mem_map.mp hcontent
    exact .uncleanSession _
  · simpa [hopened] using h.opened
  · simp [hopened]
  · rw [hsessions, nodup_append]
    exact ⟨h.unclean, h.opened.sublist hsublist, fun a ha b hb heq => hfresh b hb (heq ▸ ha)⟩

end

/-- An opening keeps the file in order, whatever it comes to. -/
theorem FileInv.qualified {result : Except Unqualified Inner} (h : FileInv drawn rows)
    (hnew : ∀ session, o.session = some session → session ∉ drawn)
    (hq : Qualified c D store o rows result rows') : FileInv (drawn ++ o.session.toList) rows' := by
  cases hq with
  | refused => exact h.mono (subset_append_left _ _)
  | unopened hsession hchain hbroken =>
    rw [hsession]
    exact h.opened_stage (valid_ofRows _ hchain) (.inr hbroken) (hnew _ hsession)
  | @unsettled session _ _ _ _ hsession hchain hopened hbroken =>
    rw [hsession]
    have hvalid := valid_ofRows session hchain
    have h₁ := h.opened_stage hvalid (.inl hopened) (hnew _ hsession)
    exact h₁.unsettled_stage (hopened.stage.1.valid hvalid) (.inr hbroken)
  | @unclean session _ _ _ _ _ hsession hchain hopened hunsettled hbroken =>
    rw [hsession]
    have hvalid := valid_ofRows session hchain
    have h₁ := h.opened_stage hvalid (.inl hopened) (hnew _ hsession)
    have hvalid₁ := hopened.stage.1.valid hvalid
    have h₂ := h₁.unsettled_stage hvalid₁ (.inl hunsettled)
    exact h₂.unclean_stage (hunsettled.stage.1.valid hvalid₁)
      (hunsettled.same.1.trans hopened.same.1) (.inr hbroken)
  | @opened session _ _ _ _ hsession hchain hopened hunsettled hunclean =>
    rw [hsession]
    have hvalid := valid_ofRows session hchain
    have h₁ := h.opened_stage hvalid (.inl hopened) (hnew _ hsession)
    have hvalid₁ := hopened.stage.1.valid hvalid
    have h₂ := h₁.unsettled_stage hvalid₁ (.inl hunsettled)
    exact h₂.unclean_stage (hunsettled.stage.1.valid hvalid₁)
      (hunsettled.same.1.trans hopened.same.1) (.inl hunclean)

/-- A commitment has an end row. -/
def HasEnd (rows : List Row) (x : Text) : Prop :=
  ∃ row ∈ rows, (∃ phase ∈ Known.endPhases, row.phase = .record phase) ∧ row.commitment = some x

/-- After an opening a started commitment is ended or stated to be unsettled. -/
theorem reconciled {x : Text} (h : FileInv drawn rows)
    (hnew : ∀ session, o.session = some session → session ∉ drawn)
    (hq : Qualified c D store o rows (.ok s) rows')
    (hx : ∃ row ∈ rows, row.phase = .record .started ∧ row.commitment = some x) :
    HasEnd rows' x ∨ x ∈ named unsettled? rows' := by
  cases hq with
  | @opened session last s₁ s₂ _ hsession hchain hopened hunsettled hunclean =>
    have hvalid := valid_ofRows session hchain
    have h₁ := h.opened_stage hvalid (.inl hopened) (hnew _ hsession)
    have hopen₁ : s₁.isLatched = false := hopened.same.1
    have hknown : s₁.known = knownOf s₁.conn :=
      ((hopened.stage.1.valid hvalid).current hopen₁).known
    obtain ⟨new₀, heq₀, -⟩ := hopened.rows
    obtain ⟨new₁, heq₁, hnew₁⟩ := hunsettled.rows
    obtain ⟨new₂, heq₂, -⟩ := hunclean.rows
    have hstarted : KeyMap.contains x s₁.known.started = true := by
      rw [hknown, (commitment_iff h₁.formed).1]
      obtain ⟨row, hrow, hphase⟩ := hx
      exact ⟨row, heq₀ ▸ mem_append_left _ hrow, hphase⟩
    have hmono : ∀ row ∈ s₁.conn, row ∈ s.conn := fun row hrow => by
      rw [heq₂, heq₁]
      exact mem_append_left _ (mem_append_left _ hrow)
    by_cases hended : KeyMap.contains x s₁.known.ended = true
    · rw [hknown, (commitment_iff h₁.formed).2] at hended
      obtain ⟨row, hrow, hphase⟩ := hended
      exact .inl ⟨row, hmono row hrow, hphase⟩
    · refine .inr ?_
      rw [heq₂, heq₁, named_append, named_append]
      refine mem_append_left _ (mem_append.mpr ?_)
      by_cases hstated : KeyMap.contains x s₁.known.unsettled = true
      · refine .inl ?_
        obtain ⟨n, hmem⟩ := KeyMap.contains_iff.mp hstated
        rw [← map_fst_statements]
        rw [hknown] at hmem
        exact mem_map_of_mem ((unsettled_perm h₁.formed h₁.unsettled).mem_iff.mp hmem)
      · refine .inr ?_
        rw [named_eq, hnew₁]
        obtain ⟨n, hmem⟩ := KeyMap.contains_iff.mp hstarted
        refine mem_filterMap.mpr ⟨_, mem_map_of_mem (mem_filter.mpr ⟨hmem, ?_⟩), rfl⟩
        simp [hended, hstated]

end Opening

/-! ## Calls -/

section Calls

variable {c : Codec} {D : Disk → Prop} {drawn : List Text} {s s' : Inner} {event : Event}

/-- What a call writes: neither the session row nor a statement of an opening. -/
structure Called (content : Content) : Prop where
  formed : Formed content
  opened : content.opened? = none
  unsettled : content.unsettled? = none
  unclean : content.unclean? = none

/-- What is owed: no acknowledgement either. -/
structure Owable (content : Content) : Prop extends Called content where
  acknowledged : content.acknowledged? = none

theorem owable_record (record : EvidenceRecord) : Owable record.content :=
  ⟨⟨.record _ _ _, rfl, rfl, rfl⟩, rfl⟩

theorem called_offer (session : Text) (call : Call) : Called (call.offer session) := by
  cases call with
  | gate record | endRecord record => exact (owable_record record).toCalled
  | acknowledge coversThrough => exact ⟨.acknowledged _, rfl, rfl, rfl⟩
  | closeSession => exact ⟨.sessionClosed _, rfl, rfl, rfl⟩

/-- Paying leaves some of the records owed. -/
theorem Pays.owed_subset {paid : Bool} (h : Pays c D s paid s') : s'.owed ⊆ s.owed := by
  induction h with
  | done => exact .refl _
  | paid howed _ _ _ ih => exact fun o ho => howed ▸ mem_cons_of_mem _ (ih ho)
  | stopped _ happend => exact happend.same.1 ▸ List.Subset.refl _

/-- Only ends and `session_closed` are owed. -/
theorem step_owable (h : step c s event s') (hs : Owes Owable s) : Owes Owable s' := by
  have howed : event.answer.verdict = .owed → Owable (event.call.offer s.session) := by
    intro hverdict
    obtain ⟨disks, hrun, -⟩ := h
    have hanswer : event.answer = (event.call.run c disks s).1 := by rw [hrun]
    rw [hanswer] at hverdict
    cases hcall : event.call with
    | gate record | endRecord record => exact owable_record record
    | closeSession => exact ⟨⟨.sessionClosed _, rfl, rfl, rfl⟩, rfl⟩
    | acknowledge coversThrough =>
      rw [hcall] at hverdict
      generalize hresult : s.acknowledge c disks coversThrough = out at hverdict
      simp only [Call.run, hresult] at hverdict
      cases hseq : out.1 <;> simp [hseq, Answer.verdict] at hverdict
  have hturn := step_turn h
  generalize event.answer.verdict = verdict at hturn howed
  cases hturn with
  | away => exact hs
  | unpaid hpays | overfull hpays => exact fun o ho => hs o (hpays.owed_subset ho)
  | owed hpays _ _ hcontent =>
    intro o ho
    rcases mem_append.mp ho with ho | ho
    · exact hs o (hpays.owed_subset ho)
    · exact mem_singleton.mp ho ▸ hcontent ▸ howed rfl
  | written hpays happend | unwritten hpays happend =>
    exact fun o ho => hs o (hpays.owed_subset (happend.same.1 ▸ ho))

/-- What a call keeps. -/
theorem step_called (h : step c s event s') (hs : Owes Owable s) : Kept Called s s' :=
  ((step_turn h).grows (fun o ho => (hs o ho).toCalled) (called_offer _ _)).kept

/-- Rows that name nothing of a kind. -/
theorem named_eq_nil {kind : Content → Option Text} (h : ∀ row ∈ rows, kind row.toContent = none) :
    named kind rows = [] :=
  filterMap_eq_nil_iff.mpr h

/-- Calls keep the file in order. -/
theorem FileInv.called (h : FileInv drawn s.conn) (hvalid : Valid s) (hkept : Kept Called s s') :
    FileInv drawn s'.conn := by
  obtain ⟨new, heq, hnew⟩ := hkept.rows
  have hopened := named_eq_nil fun row hrow => (hnew row hrow).opened
  have hunclean := named_eq_nil fun row hrow => (hnew row hrow).unclean
  refine ⟨?_, (hkept.valid hvalid).numbered, hkept.once h.once, ?_, ?_, ?_⟩
  · intro row hrow
    rw [heq] at hrow
    exact (mem_append.mp hrow).elim (h.formed row) fun hrow => (hnew row hrow).formed
  · rw [heq, named_append, hopened, append_nil]
    exact h.opened
  · rw [heq, named_append, hopened, append_nil]
    exact h.drawn
  · rw [heq, named_append, hunclean, append_nil]
    exact h.unclean

end Calls

end NexusOs.Evidence
