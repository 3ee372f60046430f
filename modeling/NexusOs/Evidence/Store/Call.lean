import NexusOs.Evidence.Store.Append

/-!
# The calls of a session

The entry points of the store as calls with answers. `Pays` and `Turn` say once what a call can do,
fault or no fault: it pays the records owed as far as it gets, and then writes, keeps or refuses
what it was called with. `Grows` closes over the steps of a call.
-/

namespace NexusOs.Evidence

open List Inner

/-- The number of the row an append found or wrote. -/
def Append.seq? : Append → Option Nat
  | .committed seq => some seq
  | .alreadyPresent seq => some seq
  | _ => none

/-- What `pay_owed` comes to: whether all were written, and the process left. -/
inductive Pays (c : Codec) (D : Disk → Prop) : Inner → Bool → Inner → Prop where
  | done {s : Inner} : s.owed = [] → Pays c D s true s
  | paid {s s' s'' : Inner} {owed : Owed} {rest : List Owed} {result : Append} {seq : Nat}
      {paid : Bool} :
      s.owed = owed :: rest → Appended c D s owed.toContent result s' → result.seq? = some seq →
      Pays c D { s' with owed := rest } paid s'' → Pays c D s paid s''
  | stopped {s s' : Inner} {owed : Owed} {rest : List Owed} {result : Append} :
      s.owed = owed :: rest → Appended c D s owed.toContent result s' → result.seq? = none →
      Pays c D s false s'

variable {D : Disk → Prop} {disks : Nat → Disk}

theorem pays_payLoop (c : Codec) (hD : ∀ i, D (disks i)) {owed : List Owed} {i : Nat} {s : Inner}
    (howed : s.owed = owed) :
    Pays c D s (s.payLoop c disks i owed).1 (s.payLoop c disks i owed).2.1 := by
  induction owed generalizing i s with
  | nil => exact .done howed
  | cons owed rest ih =>
    have happend := appended c (hD i) owed.toContent s
    rw [payLoop]
    generalize s.append c (disks i) owed.toContent = out at happend
    obtain ⟨result, s'⟩ := out
    cases result with
    | committed seq | alreadyPresent seq => exact .paid howed happend rfl (ih rfl)
    | notCommitted | uncertain | conflict | latched => exact .stopped howed happend rfl

theorem pays_payOwed (c : Codec) (disks : Nat → Disk) (hD : ∀ i, D (disks i)) (s : Inner) :
    Pays c D s (s.payOwed c disks).1 (s.payOwed c disks).2.1 :=
  pays_payLoop c hD rfl

/-! ## Calls -/

/-- A call of a session. -/
inductive Call where
  | gate (record : EvidenceRecord)
  | endRecord (record : EvidenceRecord)
  | acknowledge (coversThrough : Nat)
  | closeSession

/-- The answer of a call: the `Result` of `gate` and `acknowledge`, or an `EndStatus`. -/
inductive Answer where
  | result (seq : Option Nat)
  | status (status : EndStatus)
  deriving DecidableEq

/-- The number of `Ok` and of `Recorded`. -/
def Answer.seq? : Answer → Option Nat
  | .result seq => seq
  | .status (.recorded seq) => some seq
  | .status _ => none

namespace Call

/-- The call, with what SQLite does in each of its appends. -/
def run (c : Codec) (disks : Nat → Disk) : Call → Inner → Answer × Inner
  | .gate record, s =>
    let (seq, _, s) := s.gate c disks record
    (.result seq, s)
  | .endRecord record, s =>
    let (status, _, s) := s.endRecord c disks record
    (.status status, s)
  | .acknowledge coversThrough, s =>
    let (seq, _, s) := s.acknowledge c disks coversThrough
    (.result seq, s)
  | .closeSession, s =>
    let (status, _, s) := s.closeSession c disks
    (.status status, s)

/-- What a call offers to the store. -/
def offer (session : Utf8.Text) : Call → Content
  | .gate record => record.content
  | .endRecord record => record.content
  | .acknowledge coversThrough => acknowledgement coversThrough
  | .closeSession => { phase := .sessionClosed, commitment := none, body := .session session }

end Call

/-- What became of the offer of a call. -/
inductive Verdict where
  | written (seq : Nat)
  | owed
  | refused
  deriving DecidableEq

/-- The answer tells the verdict. -/
def Answer.verdict : Answer → Verdict
  | .result (some seq) => .written seq
  | .result none => .refused
  | .status (.recorded seq) => .written seq
  | .status .owed => .owed
  | .status .uncertain => .refused

/-- What a call that offers `content` comes to. -/
inductive Turn (c : Codec) (D : Disk → Prop) (s : Inner) (content : Content) :
    Verdict → Inner → Prop where
  | away : Turn c D s content .refused s
  | unpaid {s' : Inner} : Pays c D s false s' → Turn c D s content .refused s'
  | owed {s' : Inner} {paid : Bool} {owed : Owed} : Pays c D s paid s' → s'.isLatched = false →
      s'.owed.length < owedCapacity → owed.toContent = content →
      Turn c D s content .owed { s' with owed := s'.owed ++ [owed] }
  | overfull {s' : Inner} {paid : Bool} : Pays c D s paid s' → Turn c D s content .refused s'.latch
  | written {s' s'' : Inner} {result : Append} {seq : Nat} : Pays c D s true s' →
      Appended c D s' content result s'' → result.seq? = some seq →
      Turn c D s content (.written seq) s''
  | unwritten {s' s'' : Inner} {result : Append} : Pays c D s true s' →
      Appended c D s' content result s'' → (∀ seq, result ≠ .committed seq) →
      Turn c D s content .refused s''

theorem turn_gate (c : Codec) (hD : ∀ i, D (disks i)) (record : EvidenceRecord) (s : Inner) :
    Turn c D s record.content (Answer.result (s.gate c disks record).1).verdict
      (s.gate c disks record).2.2 := by
  have hpays := pays_payOwed c disks hD s
  unfold gate
  split
  · exact .away
  generalize s.payOwed c disks = out at hpays
  obtain ⟨paid, s', written⟩ := out
  cases paid with
  | false => exact .unpaid hpays
  | true =>
    have happend := appended c (hD s.owed.length) record.content s'
    dsimp only
    generalize s'.append c (disks s.owed.length) record.content = out at happend
    obtain ⟨result, s''⟩ := out
    cases result with
    | committed seq | alreadyPresent seq => exact .written hpays happend rfl
    | notCommitted | uncertain | conflict | latched => exact .unwritten hpays happend (by simp)

theorem turn_acknowledge (c : Codec) (hD : ∀ i, D (disks i)) (coversThrough : Nat) (s : Inner) :
    Turn c D s (acknowledgement coversThrough)
      (Answer.result (s.acknowledge c disks coversThrough).1).verdict
      (s.acknowledge c disks coversThrough).2.2 := by
  have hpays := pays_payOwed c disks hD s
  unfold acknowledge
  split
  · exact .away
  generalize s.payOwed c disks = out at hpays
  obtain ⟨paid, s', written⟩ := out
  cases paid with
  | false => exact .unpaid hpays
  | true =>
    have happend := appended c (hD s.owed.length) (acknowledgement coversThrough) s'
    dsimp only
    generalize s'.append c (disks s.owed.length) _ = out at happend
    obtain ⟨result, s''⟩ := out
    cases result with
    | committed seq => exact .written hpays happend rfl
    | alreadyPresent | notCommitted | uncertain | conflict | latched =>
      exact .unwritten hpays happend (by simp)

theorem turn_owe {c : Codec} {s s' : Inner} {paid : Bool} {owed : Owed} (hpays : Pays c D s paid s')
    (hopen : s'.isLatched = false) :
    Turn c D s owed.toContent (Answer.status (s'.owe owed).1).verdict (s'.owe owed).2 := by
  unfold owe
  split
  · exact .overfull hpays
  · exact .owed hpays hopen (by omega) rfl

theorem turn_endWith (c : Codec) (hD : ∀ i, D (disks i)) (owed : Owed) (s : Inner) :
    Turn c D s owed.toContent (Answer.status (s.endWith c disks owed).1).verdict
      (s.endWith c disks owed).2.2 := by
  have hpays := pays_payOwed c disks hD s
  unfold endWith oweUnlessLatched
  by_cases hlatched : s.isLatched = true
  · rw [if_pos hlatched, if_pos hlatched]
    exact .away
  rw [if_neg hlatched]
  generalize s.payOwed c disks = out at hpays
  obtain ⟨paid, s', written⟩ := out
  cases paid with
  | false =>
    by_cases hlatched' : s'.isLatched = true
    · dsimp only
      rw [if_pos hlatched']
      exact .unpaid hpays
    · dsimp only
      rw [if_neg hlatched']
      exact turn_owe hpays (by simpa using hlatched')
  | true =>
    have happend := appended c (hD s.owed.length) owed.toContent s'
    dsimp only
    generalize s'.append c (disks s.owed.length) owed.toContent = out at happend
    obtain ⟨result, s''⟩ := out
    cases result with
    | committed seq | alreadyPresent seq => exact .written hpays happend rfl
    | notCommitted =>
      cases happend with
      | notCommitted hopen => exact turn_owe hpays hopen
      | lost _ hmem => simp at hmem
    | uncertain | conflict | latched => exact .unwritten hpays happend (by simp)

/-- What a call can do. -/
theorem turn_run (c : Codec) (disks : Nat → Disk) (hD : ∀ i, D (disks i)) (call : Call)
    (s : Inner) :
    Turn c D s (call.offer s.session) (call.run c disks s).1.verdict (call.run c disks s).2 := by
  cases call with
  | gate record => exact turn_gate c hD record s
  | endRecord record => exact turn_endWith c hD (.of record) s
  | acknowledge coversThrough => exact turn_acknowledge c hD coversThrough s
  | closeSession => exact turn_endWith c hD s.closedStatement s

/-- A latched store does nothing. -/
theorem run_latched (c : Codec) (disks : Nat → Disk) (call : Call) {s : Inner}
    (h : s.isLatched = true) :
    (call.run c disks s).1.verdict = .refused ∧ (call.run c disks s).2 = s := by
  cases call with
  | gate record => simp [Call.run, gate, h, Answer.verdict]
  | acknowledge coversThrough => simp [Call.run, acknowledge, h, Answer.verdict]
  | endRecord record =>
    simp [Call.run, endRecord, endWith, oweUnlessLatched, h, Answer.verdict]
  | closeSession =>
    simp [Call.run, closeSession, endWith, oweUnlessLatched, h, Answer.verdict]

/-! ## Growth -/

/-- A step of the process: an append or a change of the records owed, with contents that are
`P`, or a latch. -/
inductive Atom (c : Codec) (D : Disk → Prop) (P : Content → Prop) : Inner → Inner → Prop where
  | append {s s' : Inner} {content : Content} {result : Append} : P content →
      Appended c D s content result s' → Atom c D P s s'
  | owe {s : Inner} (owed : List Owed) : (∀ o ∈ owed, o ∈ s.owed ∨ P o.toContent) →
      Atom c D P s { s with owed := owed }
  | latch {s : Inner} : Atom c D P s s.latch

/-- Any number of steps of the process. -/
abbrev Grows (c : Codec) (D : Disk → Prop) (P : Content → Prop) : Inner → Inner → Prop :=
  Relation.ReflTransGen (Atom c D P)

section Growth

variable {c : Codec} {P : Content → Prop} {s s' : Inner}

/-- The contents of the records owed are `P`. -/
def Owes (P : Content → Prop) (s : Inner) : Prop := ∀ o ∈ s.owed, P o.toContent

/-- Everything that every step keeps. -/
structure Kept (P : Content → Prop) (s s' : Inner) : Prop where
  valid : Valid s → Valid s'
  once : Once s.conn → Once s'.conn
  owes : Owes P s → Owes P s'
  rows : ∃ new, s'.conn = s.conn ++ new ∧ ∀ row ∈ new, P row.toContent
  store : s'.store = s.store
  session : s'.session = s.session

theorem Kept.refl (s : Inner) : Kept P s s := ⟨id, id, id, ⟨[], by simp, by simp⟩, rfl, rfl⟩

theorem Kept.trans {s'' : Inner} (h : Kept P s s') (h' : Kept P s' s'') : Kept P s s'' := by
  obtain ⟨new, heq, hnew⟩ := h.rows
  obtain ⟨new', heq', hnew'⟩ := h'.rows
  refine ⟨h'.valid ∘ h.valid, h'.once ∘ h.once, h'.owes ∘ h.owes, ⟨new ++ new', ?_, ?_⟩,
    h'.store.trans h.store, h'.session.trans h.session⟩
  · rw [heq', heq, append_assoc]
  · exact fun row hrow => (mem_append.mp hrow).elim (hnew row) (hnew' row)

/-- One step keeps it. -/
theorem Atom.kept (h : Atom c D P s s') : Kept P s s' := by
  cases h with
  | append hP happend =>
    obtain ⟨howed, hstore, hsession⟩ := happend.same
    refine ⟨happend.valid, happend.once, fun h o ho => h o (howed ▸ ho), ?_, hstore, hsession⟩
    rcases happend.rows with heq | ⟨row, hcontent, heq⟩
    · exact ⟨[], by simp [heq], by simp⟩
    · exact ⟨[row], heq, by simpa [hcontent] using hP⟩
  | owe owed howed =>
    refine ⟨fun h => h.withOwed owed, id, fun h o ho => ?_, ⟨[], by simp, by simp⟩, rfl, rfl⟩
    exact (howed o ho).elim (h o) id
  | latch => exact ⟨fun h => ⟨h.numbered, by simp [Inner.latch]⟩, id, id,
    ⟨[], by simp [Inner.latch], by simp⟩, rfl, rfl⟩

/-- Any number of steps keep it. -/
theorem Grows.kept (h : Grows c D P s s') : Kept P s s' := by
  induction h with
  | refl => exact .refl s
  | tail _ hatom ih => exact ih.trans hatom.kept

/-- Paying appends records owed. -/
theorem Pays.grows {paid : Bool} (h : Pays c D s paid s') (howes : Owes P s) :
    Grows c D P s s' := by
  induction h with
  | done => exact .refl
  | @paid s s' s'' owed rest _ _ _ howed happend _ _ ih =>
    have hsame := happend.same.1
    have hP : P owed.toContent := howes owed (by simp [howed])
    have hrest : ∀ o ∈ rest, o ∈ s.owed := fun o ho => by simp [howed, ho]
    refine .head (.append hP happend) (.head (.owe rest fun o ho => ?_) (ih fun o ho => ?_))
    · exact .inl (hsame ▸ hrest o ho)
    · exact howes o (hrest o ho)
  | stopped howed happend => exact .single (.append (howes _ (by simp [howed])) happend)

/-- A call appends what it was called with or records owed. -/
theorem Turn.grows {content : Content} {verdict : Verdict} (h : Turn c D s content verdict s')
    (howes : Owes P s) (hP : P content) : Grows c D P s s' := by
  cases h with
  | away => exact .refl
  | unpaid hpays => exact hpays.grows howes
  | @owed s' _ owed hpays _ _ hcontent =>
    refine .tail (hpays.grows howes) (.owe _ fun o ho => ?_)
    rcases mem_append.mp ho with ho | ho
    · exact .inl ho
    · exact .inr (mem_singleton.mp ho ▸ hcontent ▸ hP)
  | overfull hpays => exact .tail (hpays.grows howes) .latch
  | written hpays happend | unwritten hpays happend =>
    exact .tail (hpays.grows howes) (.append hP happend)

end Growth

end NexusOs.Evidence
