import NexusOs.Evidence.Store.Opening

/-!
# What the store knows of its rows

`Known` as `qualify` folds it over the rows, field by field: which commitments started and ended,
which statements there are, and through which row they are acknowledged.
-/

namespace NexusOs.Evidence

open Utf8 List Content

variable {rows : List Row} {x : Text}

/-- The contents the store writes: records, and its statements in their form. -/
inductive Formed : Content → Prop where
  | record (phase : EvidencePhase) (commitment : Option Text) (json : Text) :
      Formed ⟨.record phase, commitment, .record json⟩
  | sessionOpened (session : Text) : Formed ⟨.sessionOpened, none, .session session⟩
  | sessionClosed (session : Text) : Formed ⟨.sessionClosed, none, .session session⟩
  | uncleanSession (session : Text) : Formed ⟨.uncleanSession, none, .session session⟩
  | unsettled (commitment : Text) (started : Nat) :
      Formed ⟨.unsettled, some commitment, .unsettled commitment started⟩
  | acknowledged (through : Nat) : Formed ⟨.acknowledged, none, .acknowledged through⟩

/-- `Known` of some rows. -/
def knownOf (rows : List Row) : Known :=
  rows.foldl (fun k row => k.take row.seq row.toContent) Known.none

theorem knownOf_snoc (rows : List Row) (row : Row) :
    knownOf (rows ++ [row]) = (knownOf rows).take row.seq row.toContent := by
  simp [knownOf]

/-- A record changes only which commitments started and ended. -/
theorem Known.take_record (k : Known) (seq : Nat) (phase : EvidencePhase)
    (commitment : Option Text) (body : Body) :
    k.take seq ⟨.record phase, commitment, body⟩ =
      { k with
        started := (k.take seq ⟨.record phase, commitment, body⟩).started
        ended := (k.take seq ⟨.record phase, commitment, body⟩).ended } := by
  cases commitment with
  | none => rfl
  | some commitment =>
    simp only [Known.take]
    split_ifs <;> rfl

/-- Every row has a content that the store writes. -/
def AllFormed (rows : List Row) : Prop := ∀ row ∈ rows, Formed row.toContent

/-- A property of rows that are formed, by adding rows at the end. -/
@[elab_as_elim]
theorem formed_induction {motive : ∀ rows, AllFormed rows → Prop}
    (nil : motive [] (by simp [AllFormed]))
    (snoc : ∀ rows (row : Row) (hrows : AllFormed rows) (hrow : Formed row.toContent),
      motive rows hrows → motive (rows ++ [row]) (by
        intro r hr
        rcases mem_append.mp hr with hr | hr
        · exact hrows r hr
        · exact mem_singleton.mp hr ▸ hrow))
    (rows : List Row) (h : AllFormed rows) : motive rows h := by
  induction rows using List.reverseRecOn with
  | nil => exact nil
  | append_singleton rows row ih =>
    have hrows : AllFormed rows := fun r hr => h r (mem_append_left _ hr)
    exact snoc rows row hrows (h row (by simp)) (ih hrows)

/-- The commitments that started, and those that ended. -/
theorem commitment_iff (h : AllFormed rows) :
    (KeyMap.contains x (knownOf rows).started = true ↔
      ∃ row ∈ rows, row.phase = .record .started ∧ row.commitment = some x) ∧
    (KeyMap.contains x (knownOf rows).ended = true ↔
      ∃ row ∈ rows, (∃ phase ∈ Known.endPhases, row.phase = .record phase) ∧
        row.commitment = some x) := by
  induction rows, h using formed_induction with
  | nil => simp [knownOf, Known.none, KeyMap.contains]
  | snoc rows row _ hrow ih =>
    rw [knownOf_snoc]
    obtain ⟨content, seq, session, storedMs, prev, tag⟩ := row
    cases hrow with
    | record phase commitment json =>
      cases commitment with
      | none => simp [Known.take, ih]
      | some y =>
        by_cases hphase : phase = .started
        · simp [Known.take, hphase, ih, Known.endPhases]
        · by_cases hend : phase ∈ Known.endPhases <;>
            simp [Known.take, hphase, hend, ih]
    | _ => simp [Known.take, ih]

/-- The session of a `session_opened`. -/
def Content.opened? (content : Content) : Option Text :=
  match content.phase, content.body with
  | .sessionOpened, .session session => some session
  | _, _ => none

/-- The commitment of an `unsettled`. -/
def Content.unsettled? (content : Content) : Option Text :=
  match content.phase with
  | .unsettled => content.commitment
  | _ => none

/-- The session of an `unclean_session`. -/
def Content.unclean? (content : Content) : Option Text :=
  match content.phase, content.body with
  | .uncleanSession, .session session => some session
  | _, _ => none

/-- The number through which an `acknowledged` acknowledges. -/
def Content.acknowledged? (content : Content) : Option Nat :=
  match content.phase, content.body with
  | .acknowledged, .acknowledged through => some through
  | _, _ => none

/-- The statements of one kind in some rows, with their numbers. -/
def statements (kind : Content → Option Text) (rows : List Row) : List (Text × Nat) :=
  rows.filterMap fun row => (kind row.toContent).map fun name => (name, row.seq)

/-- What the statements of one kind name. -/
def named (kind : Content → Option Text) (rows : List Row) : List Text :=
  rows.filterMap fun row => kind row.toContent

theorem map_fst_statements (kind : Content → Option Text) (rows : List Row) :
    (statements kind rows).map Prod.fst = named kind rows := by
  rw [statements, map_filterMap, named]
  simp [Function.comp_def]

/-- The sessions that were opened. -/
theorem opened_eq (h : AllFormed rows) :
    (knownOf rows).opened.map Prod.fst = named opened? rows := by
  unfold named
  induction rows, h using formed_induction with
  | nil => rfl
  | snoc rows row _ hrow ih =>
    rw [knownOf_snoc, filterMap_append, filterMap_cons]
    obtain ⟨content, seq, session, storedMs, prev, tag⟩ := row
    cases hrow with
    | record phase commitment json =>
      rw [Known.take_record]
      simp [ih, opened?]
    | _ => simp [Known.take, ih, opened?]

/-- A field that inserts the statements of one kind, if no name occurs twice. -/
theorem statements_perm {kind : Content → Option Text} {field : Known → List (Text × Nat)}
    (hnone : field .none = [])
    (htake : ∀ {content}, Formed content → ∀ k seq, field (k.take seq content) =
      ((kind content).elim (field k) fun name => KeyMap.insert name seq (field k)))
    (h : AllFormed rows) (hnodup : (named kind rows).Nodup) :
    (field (knownOf rows)).Perm (statements kind rows) := by
  rw [← map_fst_statements] at hnodup
  unfold statements at hnodup ⊢
  induction rows, h using formed_induction with
  | nil => simp [knownOf, hnone]
  | snoc rows row _ hrow ih =>
    rw [filterMap_append, map_append, filterMap_cons] at hnodup
    have ih := ih (nodup_append.mp hnodup).1
    rw [knownOf_snoc, htake hrow, filterMap_append, filterMap_cons]
    cases hkind : kind row.toContent with
    | none => simpa using ih
    | some name => exact KeyMap.insert_perm_snoc ih (by simpa [hkind] using hnodup)

/-- The `unsettled` statements, if no commitment has two. -/
theorem unsettled_perm (h : AllFormed rows) (hnodup : (named unsettled? rows).Nodup) :
    (knownOf rows).unsettled.Perm (statements unsettled? rows) := by
  refine statements_perm rfl (fun hcontent k seq => ?_) h hnodup
  cases hcontent with
  | record => rw [Known.take_record]; rfl
  | _ => rfl

/-- The `unclean_session` statements, if no session has two. -/
theorem unclean_perm (h : AllFormed rows) (hnodup : (named unclean? rows).Nodup) :
    (knownOf rows).unclean.Perm (statements unclean? rows) := by
  refine statements_perm rfl (fun hcontent k seq => ?_) h hnodup
  cases hcontent with
  | record => rw [Known.take_record]; rfl
  | _ => rfl

/-- An acknowledgement covers the row with number `n`. -/
def covered (rows : List Row) (n : Nat) : Bool :=
  rows.any fun row => (row.toContent.acknowledged?).any fun through => n ≤ through

/-- The number through which the rows are acknowledged covers the same rows. -/
theorem acknowledged_lt_iff {n : Nat} (h : AllFormed rows) (hn : 0 < n) :
    (knownOf rows).acknowledged < n ↔ covered rows n = false := by
  unfold covered
  induction rows, h using formed_induction with
  | nil => simpa [knownOf, Known.none] using hn
  | snoc rows row _ hrow ih =>
    rw [knownOf_snoc, any_append, Bool.or_eq_false_iff, ← ih]
    obtain ⟨content, seq, session, storedMs, prev, tag⟩ := row
    cases hrow with
    | record phase commitment json =>
      rw [Known.take_record]
      simp [acknowledged?]
    | _ => simp [Known.take, acknowledged?]

end NexusOs.Evidence
