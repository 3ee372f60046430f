import NexusOs.Evidence.Store.Recovery
import NexusOs.Lib.Chain

/-!
# The chain of a store

Whatever happens to a store, its next opening finds a chain that verifies, and the last tag of a
chain determines it (`chain_verifies_again`). The tag of a row is taken over the time that the clock
gave, and the row holds that time as SQLite's signed number, so the host's clock is assumed to give
times that such a number holds (`Timely`), as the host's own signed count of time does.
-/

namespace NexusOs.Evidence

open Framing Utf8 List Inner
open Transition (Run)

variable {o : Opening} {c : Codec} {store tag : Text} {s s' : Inner} {rows : List Row}
  {first i : Nat} {content : Content} {contents : List Content} {disk : Disk} {disks : Nat → Disk}
  {w w' : World}

theorem verifyLoop_snoc {row : Row} {middle : Nat × Text}
    (h : verifyLoop c store first tag rows = some middle) (hfits : middle.1 + 1 < 2 ^ 64)
    (hseq : row.seq = middle.1 + 1) (hprev : row.prev = middle.2)
    (hverifies : row.verifies c store = true) :
    verifyLoop c store first tag (rows ++ [row]) = some (row.seq, row.tag) := by
  induction rows generalizing first tag with
  | nil =>
    obtain rfl := Option.some.inj h
    have hlinked : ¬(first + 1 ≥ 2 ^ 64 ∨ row.seq ≠ first + 1 ∨ row.prev ≠ tag ∨
        !row.verifies c store) := by
      simp [hprev, hverifies]
      omega
    rw [nil_append, verifyLoop, if_neg hlinked, verifyLoop]
  | cons r rows ih =>
    rw [verifyLoop] at h
    rw [cons_append, verifyLoop]
    split at h
    · cases h
    · rename_i hlinked
      rw [if_neg hlinked]
      exact ih h

/-- When an append reads the clock, it gives a time that SQLite's signed number holds. -/
def Disk.Timely (disk : Disk) : Prop := disk.wallMs < 2 ^ 63

/-! ## What an append keeps -/

/-- The rows of a process are a chain that the next opening accepts, and the process ends where the
chain does unless latched. -/
structure Sound (c : Codec) (store : Text) (s : Inner) : Prop where
  valid : Valid s
  named : s.store = store
  chain : ∃ last, verifyChain c store s.conn = some last ∧
    (s.isLatched = false → last = (s.lastSeq, s.lastTag))
  acknowledgements : acknowledgementsPrecede s.conn = true

theorem Sound.latch (h : Sound c store s) : Sound c store s.latch := by
  obtain ⟨last, hlast, -⟩ := h.chain
  exact ⟨⟨h.valid.numbered, by simp [Inner.latch]⟩, h.named, ⟨last, hlast, by simp [Inner.latch]⟩,
    h.acknowledgements⟩

theorem Sound.withOwed (h : Sound c store s) (owed : List Owed) :
    Sound c store { s with owed := owed } :=
  ⟨h.valid.withOwed owed, h.named, h.chain, h.acknowledgements⟩

/-- The row of an append that the table admits continues the chain. -/
theorem Sound.row (h : Sound c store s) (hopen : s.isLatched = false)
    (hfits : s.lastSeq + 1 < 2 ^ 64) (hadmissible : Admissible s content) (htimely : disk.Timely)
    (hack : ∀ n, content.acknowledged? = some n → n ≤ s.lastSeq) :
    verifyChain c store (s.conn ++ [s.nextRow c disk content]) =
        some (s.lastSeq + 1, (s.nextRow c disk content).tag) ∧
      acknowledgementsPrecede (s.conn ++ [s.nextRow c disk content]) = true := by
  obtain ⟨last, hlast, hcurrent⟩ := h.chain
  obtain rfl := hcurrent hopen
  have hseq := h.valid.seq_nextRow hopen hadmissible
  have htime : toI64 disk.wallMs = disk.wallMs := by
    have := htimely
    simp only [Disk.Timely] at this
    simp only [toI64]
    omega
  constructor
  · rw [← hseq]
    exact verifyLoop_snoc hlast hfits hseq rfl
      (by simp [Row.verifies, nextRow, hseq, htime, h.named])
  · have hbefore := h.acknowledgements
    unfold acknowledgementsPrecede at hbefore ⊢
    rw [all_append, hbefore, Bool.true_and, all_cons, all_nil, Bool.and_true]
    split
    · rename_i through hphase _ hbody
      have hthrough : content.acknowledged? = some through := by
        simp only [nextRow] at hphase hbody
        simp [Content.acknowledged?, hphase, hbody]
      have := hack through hthrough
      simp only [nextRow, hseq, decide_eq_true_eq]
      omega
    · rfl

/-- An append whose clock is timely keeps the chain. -/
theorem Sound.append {result : Append} (happend : Appended c Disk.Timely s content result s') (h : Sound c store s)
    (hack : ∀ n, content.acknowledged? = some n → n ≤ s.lastSeq) :
    Sound c store s' ∧ s.lastSeq ≤ s'.lastSeq := by
  have hvalid := happend.valid h.valid
  cases happend with
  | latched | present | notCommitted => exact ⟨h, le_refl _⟩
  | lost => exact ⟨h.latch, le_refl _⟩
  | committed disk htimely hopen hfits hadmissible =>
    obtain ⟨hchain, hacks⟩ := h.row hopen hfits hadmissible htimely hack
    exact ⟨⟨hvalid, h.named, ⟨_, hchain, fun _ => rfl⟩, hacks⟩, Nat.le_succ _⟩
  | kept disk htimely hopen hfits hadmissible =>
    obtain ⟨hchain, hacks⟩ := h.row hopen hfits hadmissible htimely hack
    exact ⟨⟨hvalid, h.named, ⟨_, hchain, by simp [Inner.latch]⟩, hacks⟩, le_refl _⟩

/-! ## What a call keeps -/

/-- What the file says does not name an acknowledgement. -/
theorem Owable.silent (h : Owable content) {n m : Nat}
    (hn : content.acknowledged? = some n) : n ≤ m := by
  rw [h.acknowledged] at hn
  cases hn

theorem Sound.pays {paid : Bool} (hpays : Pays c Disk.Timely s paid s') (h : Sound c store s)
    (howes : Owes Owable s) : Sound c store s' ∧ s.lastSeq ≤ s'.lastSeq := by
  induction hpays with
  | done => exact ⟨h, le_refl _⟩
  | paid howed happend _ _ ih =>
    obtain ⟨hs, hle⟩ := h.append happend fun n hn => (howes _ (by simp [howed])).silent hn
    obtain ⟨hs', hle'⟩ := ih (hs.withOwed _) fun o ho => howes o (by simp_all)
    exact ⟨hs', Nat.le_trans hle hle'⟩
  | stopped howed happend =>
    exact h.append happend fun n hn => (howes _ (by simp [howed])).silent hn

/-- A call with a timely clock keeps the chain, if it acknowledges nothing that is not there. -/
theorem Sound.turn {verdict : Verdict} (hturn : Turn c Disk.Timely s content verdict s')
    (h : Sound c store s) (howes : Owes Owable s)
    (hack : ∀ n, content.acknowledged? = some n → n ≤ s.lastSeq) : Sound c store s' := by
  have hack' : ∀ {middle : Inner}, s.lastSeq ≤ middle.lastSeq →
      ∀ n, content.acknowledged? = some n → n ≤ middle.lastSeq :=
    fun hle n hn => Nat.le_trans (hack n hn) hle
  cases hturn with
  | away => exact h
  | unpaid hpays => exact (h.pays hpays howes).1
  | owed hpays => exact (h.pays hpays howes).1.withOwed _
  | overfull hpays => exact (h.pays hpays howes).1.latch
  | written hpays happend | unwritten hpays happend =>
    -- the rows owed were written first, so an acknowledgement comes after all it covers
    obtain ⟨hs, hle⟩ := h.pays hpays howes
    exact (hs.append happend (hack' hle)).1

/-- A call whose clock is timely keeps the chain. -/
theorem Sound.run (htimely : ∀ i, (disks i).Timely) (h : Sound c store s) (howes : Owes Owable s)
    (call : Call) : Sound c store (call.run c disks s).2 := by
  have hturn := turn_run c disks htimely call s
  cases call with
  | gate record | endRecord record =>
    exact h.turn hturn howes fun n hn => (owable_record record).silent hn
  | closeSession => exact h.turn hturn howes fun n hn => by cases hn
  | acknowledge coversThrough =>
    by_cases hcovers : coversThrough ≤ s.lastSeq
    · refine h.turn hturn howes fun n hn => ?_
      obtain rfl : coversThrough = n := by
        simpa [Call.offer, acknowledgement, Content.acknowledged?] using hn
      exact hcovers
    · have hguard : (s.isLatched || decide (coversThrough > s.lastSeq)) = true := by
        simp only [Bool.or_eq_true, decide_eq_true_eq]
        omega
      simp only [Call.run, acknowledge, hguard]
      exact h

/-! ## Openings -/

theorem Sound.stated (hstated : Stated c Disk.Timely s contents s') (h : Sound c store s)
    (hsilent : ∀ content ∈ contents, content.acknowledged? = none) : Sound c store s' := by
  induction hstated with
  | nil => exact h
  | cons disk htimely hopen hfits hadmissible _ ih =>
    rw [forall_mem_cons] at hsilent
    have happend := Appended.committed (c := c) disk htimely hopen hfits hadmissible
    exact ih (h.append happend (by simp [hsilent.1])).1 hsilent.2

theorem Sound.broken (hbroken : Broken c Disk.Timely s contents s') (h : Sound c store s)
    (hsilent : ∀ content ∈ contents, content.acknowledged? = none) : Sound c store s' := by
  obtain ⟨done, content, rest, middle, result, rfl, hdone, happend⟩ := hbroken
  have hmiddle := h.stated hdone fun content hmem => hsilent content (by simp [hmem])
  exact (hmiddle.append happend (by simp [hsilent content])).1

theorem silent_unsettled (s : Inner) :
    ∀ content ∈ s.unsettledStatements, content.acknowledged? = none := by
  intro content hmem
  obtain ⟨entry, -, rfl⟩ := mem_map.mp hmem
  rfl

theorem silent_unclean (s : Inner) :
    ∀ content ∈ s.uncleanStatements, content.acknowledged? = none := by
  intro content hmem
  obtain ⟨entry, -, rfl⟩ := mem_map.mp hmem
  rfl

/-- The view of the chain that an opening verified. -/
theorem sound_ofRows {last : Nat × Text} (session : Text)
    (hchain : verifyChain c store rows = some last) (hacks : acknowledgementsPrecede rows = true) :
    Sound c store (.ofRows store session rows last) :=
  ⟨valid_ofRows session hchain, rfl, ⟨last, hchain, fun _ => rfl⟩, hacks⟩

/-- What an opening leaves: the rows as they were, or those of a process that keeps the chain, which
is the one returned if one is. -/
theorem sound_qualify (htimely : ∀ i, (o.disks i).Timely)
    (hacks : acknowledgementsPrecede rows = true) :
    ((qualify c store o rows).2 = rows ∧ (qualify c store o rows).1.toOption = none) ∨
      ∃ s, Sound c store s ∧ (qualify c store o rows).2 = s.conn ∧
        ∀ s', (qualify c store o rows).1 = .ok s' → s' = s := by
  have hqualified := qualified c store o htimely rows
  generalize (qualify c store o rows).1 = result at hqualified ⊢
  generalize (qualify c store o rows).2 = rows' at hqualified ⊢
  have hopened : ∀ {session last} {s₁ : Inner}, Sound c store (.ofRows store session rows last) →
      Stated c Disk.Timely _ [(ofRows store session rows last).openedStatement] s₁ →
      Sound c store s₁ := fun hfirst hstated =>
        hfirst.stated hstated (by simp [openedStatement, Content.acknowledged?])
  cases hqualified with
  | refused => exact .inl ⟨rfl, rfl⟩
  | unopened _ hchain hbroken =>
    refine .inr ⟨_, (sound_ofRows _ hchain hacks).broken hbroken ?_, rfl, by simp⟩
    simp [openedStatement, Content.acknowledged?]
  | unsettled _ hchain hstated hbroken =>
    have hs := hopened (sound_ofRows _ hchain hacks) hstated
    exact .inr ⟨_, hs.broken hbroken (silent_unsettled _), rfl, by simp⟩
  | unclean _ hchain hstated hunsettled hbroken =>
    have hs := (hopened (sound_ofRows _ hchain hacks) hstated).stated hunsettled
      (silent_unsettled _)
    exact .inr ⟨_, hs.broken hbroken (silent_unclean _), rfl, by simp⟩
  | opened _ hchain hstated hunsettled hunclean =>
    have hs := (hopened (sound_ofRows _ hchain hacks) hstated).stated hunsettled
      (silent_unsettled _)
    exact .inr ⟨_, hs.stated hunclean (silent_unclean _), rfl, by simp⟩

/-! ## Histories -/

/-- One thing that happens to a store on a host with a timely clock. -/
inductive TimelyHappens (c : Codec) (store : Text) : World → Act → World → Prop where
  | opening {w : World} (o : Opening) : w.process = none → (∀ i, (o.disks i).Timely) →
      TimelyHappens c store w (.opening o)
        ⟨(qualify c store o w.rows).2, (qualify c store o w.rows).1.toOption⟩
  | call {w : World} {s s' : Inner} {event : Event} (disks : Nat → Disk) : w.process = some s →
      (∀ i, (disks i).Timely) → event.call.run c disks s = (event.answer, s') →
      event.latched = s'.isLatched → TimelyHappens c store w (.call event) ⟨s'.conn, some s'⟩
  | crash {w : World} : TimelyHappens c store w .crash ⟨w.rows, none⟩

/-- The rows of a file are a chain that the next opening accepts, and its process keeps to it. -/
structure Lasting (c : Codec) (store : Text) (w : World) : Prop where
  chain : ∃ last, verifyChain c store w.rows = some last
  acknowledgements : acknowledgementsPrecede w.rows = true
  process : ∀ s, w.process = some s → s.conn = w.rows ∧ Sound c store s ∧ Owes Owable s

theorem lasting_new : Lasting c store .new := ⟨⟨_, rfl⟩, rfl, by simp [World.new]⟩

/-- A process that keeps the chain makes a file that does. -/
theorem Sound.lasting (h : Sound c store s) {process : Option Inner}
    (hprocess : ∀ s', process = some s' → s' = s ∧ Owes Owable s) :
    Lasting c store ⟨s.conn, process⟩ := by
  obtain ⟨last, hlast, -⟩ := h.chain
  refine ⟨⟨last, hlast⟩, h.acknowledgements, fun s' hs' => ?_⟩
  obtain ⟨rfl, howes⟩ := hprocess s' hs'
  exact ⟨rfl, h, howes⟩

/-- Whatever happens while the clock is timely, the next opening accepts the file. -/
theorem Lasting.happens {act : Act} (h : Lasting c store w)
    (hstep : TimelyHappens c store w act w') : Lasting c store w' := by
  cases hstep with
  | opening o hnone htimely =>
    rcases sound_qualify htimely h.acknowledgements with
      ⟨hrows, hrefused⟩ | ⟨s, hs, hrows, hopened⟩
    · rw [hrows, hrefused]
      exact ⟨h.chain, h.acknowledgements, by simp⟩
    rw [hrows]
    refine hs.lasting fun s' hs' => ?_
    have hok : (qualify c store o w.rows).1 = .ok s' := by
      cases hresult : (qualify c store o w.rows).1 with
      | error => simp [hresult, Except.toOption] at hs'
      | ok => simpa [hresult, Except.toOption] using hs'
    obtain rfl := hopened s' hok
    obtain ⟨-, -, howed⟩ := valid_of_qualify hok
    exact ⟨rfl, by simp [Owes, howed]⟩
  | @call s s' event disks hprocess htimely hrun hlatched =>
    obtain ⟨-, hs, howes⟩ := h.process s hprocess
    have hnext := hs.run htimely howes event.call
    rw [hrun] at hnext
    refine hnext.lasting fun s'' hs'' => ?_
    obtain rfl := Option.some.inj hs''
    exact ⟨rfl, step_owable ⟨disks, hrun, hlatched⟩ howes⟩
  | crash => exact ⟨h.chain, h.acknowledgements, by simp⟩

/-- A statement that is not written is never refused for the chain. -/
theorem statement_ne_chain : (s.statement c disk content).1 ≠ .error .chain := by
  unfold statement
  split <;> simp

theorem statements_ne_chain : (s.statements c disks i contents).1 ≠ .error .chain := by
  induction contents generalizing i s with
  | nil => simp [Inner.statements]
  | cons content rest ih =>
    have hstatement : (s.statement c (disks i) content).1 ≠ .error .chain := statement_ne_chain
    rw [Inner.statements]
    generalize s.statement c (disks i) content = out at hstatement
    obtain ⟨result, s'⟩ := out
    cases result with
    | ok => exact ih
    | error => exact hstatement

theorem reconcile_ne_chain : (s.reconcile c disks i).1 ≠ .error .chain := by
  have hunsettled : (s.statements c disks i s.unsettledStatements).1 ≠ .error .chain :=
    statements_ne_chain
  unfold reconcile
  dsimp only
  generalize s.statements c disks i s.unsettledStatements = out at hunsettled
  obtain ⟨result, s'⟩ := out
  cases result with
  | ok => exact statements_ne_chain
  | error => exact hunsettled

/-- An opening that can read a lasting file does not refuse its chain. -/
theorem Lasting.opens (h : Lasting c store w) (hreads : o.reads = true)
    (hchecks : o.checks = none) :
    (qualify c store o w.rows).1 ≠ .error .chain := by
  obtain ⟨last, hlast⟩ := h.chain
  unfold qualify
  simp only [hchecks, hreads, if_true, hlast, h.acknowledgements]
  cases o.session with
  | none => simp
  | some session =>
    dsimp only
    generalize ofRows store session w.rows last = first
    have hopened : (first.statement c (o.disks 0) first.openedStatement).1 ≠ .error .chain :=
      statement_ne_chain
    generalize first.statement c (o.disks 0) first.openedStatement = out at hopened
    obtain ⟨result, s₁⟩ := out
    cases result with
    | error => simpa using hopened
    | ok =>
      have hreconciled : (s₁.reconcile c o.disks 1).1 ≠ .error .chain := reconcile_ne_chain
      dsimp only
      generalize s₁.reconcile c o.disks 1 = out at hreconciled
      obtain ⟨result, s₂⟩ := out
      cases result with
      | error => simpa using hreconciled
      | ok => simp

/-! ## Rows as they are stored -/

/-- A text that the source can hold: a u64 counts its bytes. -/
structure Str where
  text : Text
  fits : size text < 2 ^ 64
  deriving DecidableEq

/-- `Row`, column by column: any numbers and texts. -/
structure StoredRow where
  seq : UInt64
  session : Str
  storedMs : UInt64
  phase : Str
  commitment : Option Str
  body : Str
  prev : Str
  tag : Str
  deriving DecidableEq

namespace StoredRow

/-- The fields that `tag_of` takes. -/
def fields (store : Str) (row : StoredRow) : List Bytes :=
  [encode "nexus.p3.evidence.tag.v1", encode store.text, encode row.prev.text,
    beBytes 8 row.seq.toNat, encode row.session.text, beBytes 8 row.storedMs.toNat,
    encode row.phase.text] ++
  (match row.commitment with
    | some commitment => [[1], encode commitment.text]
    | none => [[0]]) ++
  [encode row.body.text]

/-- `Row::verifies`. -/
def verifies (sha256 : Bytes → Bytes) (store : Str) (row : StoredRow) : Bool :=
  (hexEncode (sha256 (framed [] (row.fields store)))).toList = row.tag.text

/-- The loop of `verify_chain`. -/
def verifyLoop (sha256 : Bytes → Bytes) (store : Str) :
    Nat → Text → List StoredRow → Option (Nat × Text)
  | lastSeq, lastTag, [] => some (lastSeq, lastTag)
  | lastSeq, lastTag, row :: rows =>
    if lastSeq + 1 ≥ 2 ^ 64 ∨ row.seq.toNat ≠ lastSeq + 1 ∨ row.prev.text ≠ lastTag ∨
        !row.verifies sha256 store then none
    else verifyLoop sha256 store row.seq.toNat row.tag.text rows

/-- `verify_chain`. -/
def verifyChain (sha256 : Bytes → Bytes) (store : Str) (rows : List StoredRow) :
    Option (Nat × Text) :=
  verifyLoop sha256 store 0 genesis rows

variable {sha256 : Bytes → Bytes} {store : Str} {rows rows' : List StoredRow} {last : Nat × Text}
  {c : Codec} {shown : List Row}

/-- A chain that verifies, record by record. -/
theorem verifyLoop_eq_some {lastSeq : Nat} {lastTag : Text}
    (h : verifyLoop sha256 store lastSeq lastTag rows = some last) :
    Chain.Linked (fun row => row.seq.toNat) (fun row => row.prev.text)
        (fun row : StoredRow => row.tag.text) (lastSeq + 1) lastTag rows ∧
      (∀ row ∈ rows, row.verifies sha256 store = true) ∧
      last.2 = Chain.head (fun row : StoredRow => row.tag.text) lastTag rows := by
  induction rows generalizing lastSeq lastTag with
  | nil =>
    obtain rfl := Option.some.inj h
    simp [Chain.Linked, Chain.head]
  | cons row rows ih =>
    rw [verifyLoop] at h
    split at h
    · cases h
    rename_i hlinked
    simp only [not_or, not_not, Bool.not_eq_true, Bool.not_eq_false'] at hlinked
    obtain ⟨-, hseq, hprev, hverifies⟩ := hlinked
    rw [hseq] at h
    obtain ⟨hrest, hall, hlast⟩ := ih h
    refine ⟨⟨hseq, hprev, hrest⟩, ?_, by rw [Chain.head_cons]; exact hlast⟩
    exact forall_mem_cons.mpr ⟨hverifies, hall⟩

theorem length_fields (row : StoredRow) : ∀ field ∈ row.fields store, field.length < 2 ^ 64 := by
  have hstr : ∀ s : Str, (encode s.text).length < 2 ^ 64 := fun s => length_encode s.text ▸ s.fits
  have hlabel : (encode "nexus.p3.evidence.tag.v1").length < 2 ^ 64 := by decide +kernel
  cases hmark : row.commitment <;>
    simp only [fields, hmark, forall_mem_append, forall_mem_cons, hstr, hlabel, length_beBytes] <;>
    decide

theorem Str.ext_encode {a b : Str} (h : encode a.text = encode b.text) : a = b := by
  obtain ⟨text', fits'⟩ := b
  obtain rfl := encode_injective h
  rfl

/-- The columns of a row of the store. -/
structure Shows (c : Codec) (stored : StoredRow) (row : Row) : Prop where
  seq : stored.seq.toNat = row.seq
  session : stored.session.text = row.session
  storedMs : stored.storedMs.toNat = row.storedMs
  phase : stored.phase.text = row.phase.asStr
  commitment : stored.commitment.map Str.text = row.commitment
  body : stored.body.text = c.json row.phase row.body
  prev : stored.prev.text = row.prev
  tag : stored.tag.text = row.tag

/-- A row verifies as its columns do. -/
theorem Shows.verifies {stored : StoredRow} {row : Row} (h : Shows c stored row) :
    stored.verifies c.sha256 store = row.verifies c store.text := by
  simp only [StoredRow.verifies, Row.verifies, tagOf, fields, h.seq, h.session, h.storedMs, h.phase,
    ← h.commitment, h.body, h.prev, h.tag]
  cases stored.commitment <;> rfl

theorem verifyLoop_shows {stored : List StoredRow} (h : Forall₂ (Shows c) stored shown)
    (lastSeq : Nat) (lastTag : Text) : verifyLoop c.sha256 store lastSeq lastTag stored =
      Evidence.verifyLoop c store.text lastSeq lastTag shown := by
  induction h generalizing lastSeq lastTag with
  | nil => rfl
  | cons hrow _ ih =>
    rw [verifyLoop, Evidence.verifyLoop, hrow.verifies, hrow.seq, hrow.prev, hrow.tag, ih]

/-- The rows of a store verify as their columns do. -/
theorem verifyChain_shows {stored : List StoredRow} (h : Forall₂ (Shows c) stored shown) :
    verifyChain c.sha256 store stored = Evidence.verifyChain c store.text shown :=
  verifyLoop_shows h 0 genesis

variable {a b : StoredRow}

/-- The fields of a row determine every column but its tag. -/
theorem fields_inj (h : a.fields store = b.fields store) (htag : a.tag = b.tag) : a = b := by
  have hword : ∀ x y : UInt64, beBytes 8 x.toNat = beBytes 8 y.toNat → x = y := fun x y heq =>
    UInt64.toNat_inj.mp (beBytes_inj x.toNat_lt y.toNat_lt heq)
  obtain ⟨seq, session, storedMs, phase, commitment, body, prev, tag⟩ := a
  obtain ⟨seq', session', storedMs', phase', commitment', body', prev', tag'⟩ := b
  obtain rfl : tag = tag' := htag
  -- a present and an absent commitment differ in their mark
  cases commitment <;> cases commitment' <;>
    simp only [fields, cons_append, nil_append, List.cons.injEq, true_and, and_true,
      reduceCtorEq, and_false] at h
  · obtain ⟨hprev, hseq, hsession, hms, hphase, hbody⟩ := h
    rw [Str.ext_encode hprev, hword _ _ hseq, Str.ext_encode hsession, hword _ _ hms,
      Str.ext_encode hphase, Str.ext_encode hbody]
  · obtain ⟨hprev, hseq, hsession, hms, hphase, hcommitment, hbody⟩ := h
    rw [Str.ext_encode hprev, hword _ _ hseq, Str.ext_encode hsession, hword _ _ hms,
      Str.ext_encode hphase, Str.ext_encode hcommitment, Str.ext_encode hbody]

/-- SHA-256 has no collision among some rows, and none of them has the first tag. -/
structure CollisionFree (sha256 : Bytes → Bytes) (store : Str) (rows : List StoredRow) : Prop where
  injective : ∀ a ∈ rows, ∀ b ∈ rows,
    sha256 (framed [] (a.fields store)) = sha256 (framed [] (b.fields store)) →
      framed [] (a.fields store) = framed [] (b.fields store)
  genesis : ∀ a ∈ rows, (hexEncode (sha256 (framed [] (a.fields store)))).toList ≠ genesis

/-- The tag of a row determines the row. -/
theorem eq_of_tag_eq (hfree : CollisionFree sha256 store (rows ++ rows')) (ha : a ∈ rows)
    (hb : b ∈ rows') (hverifies : a.verifies sha256 store = true)
    (hverifies' : b.verifies sha256 store = true) (h : a.tag.text = b.tag.text) : a = b := by
  simp only [verifies, decide_eq_true_eq] at hverifies hverifies'
  have hdigest := hexEncode_inj (String.toList_injective
    (hverifies.trans (h.trans hverifies'.symm)))
  have hframe := hfree.injective a (by simp [ha]) b (by simp [hb]) hdigest
  exact fields_inj (framed_inj (length_fields a) (length_fields b) hframe)
    (Str.ext_encode (congrArg encode h))

/-- A row that verifies does not have the first tag. -/
theorem CollisionFree.tag_ne (hfree : CollisionFree sha256 store rows) (ha : a ∈ rows)
    (hverifies : a.verifies sha256 store = true) : a.tag.text ≠ Evidence.genesis := by
  simp only [verifies, decide_eq_true_eq] at hverifies
  exact hverifies ▸ hfree.genesis a ha

/-- The last tag of a chain determines the chain. -/
theorem last_tag_determines_rows (hfree : CollisionFree sha256 store (rows ++ rows'))
    {last' : Nat × Text} (h : verifyChain sha256 store rows = some last)
    (h' : verifyChain sha256 store rows' = some last') (htag : last.2 = last'.2) :
    rows = rows' := by
  obtain ⟨hlinked, hall, hlast⟩ := verifyLoop_eq_some h
  obtain ⟨hlinked', hall', hlast'⟩ := verifyLoop_eq_some h'
  rw [hlast, hlast'] at htag
  refine hlinked.eq_of_getLast? hlinked' (fun a ha b hb => eq_of_tag_eq hfree ha hb (hall a ha)
    (hall' b hb)) ?_
  rcases eq_nil_or_concat' rows with rfl | ⟨rest, a, rfl⟩ <;>
    rcases eq_nil_or_concat' rows' with rfl | ⟨rest', b, rfl⟩
  · rfl
  · rw [Chain.head_snoc] at htag
    exact absurd htag.symm (hfree.tag_ne (by simp) (hall' b (by simp)))
  · rw [Chain.head_snoc] at htag
    exact absurd htag (hfree.tag_ne (by simp) (hall a (by simp)))
  · simpa using htag

end StoredRow

/-! ## Every history -/

/-- The chain of a store verifies again, and its last tag determines it, in every history on a host
with a timely clock. -/
theorem chain_verifies_again {c : Codec} {store : Str} {acts : List Act} {w : World}
    (hrun : Run (TimelyHappens c store.text) .new acts w) :
    (∃ last, verifyChain c store.text w.rows = some last ∧
      (∀ stored, Forall₂ (StoredRow.Shows c) stored w.rows →
        StoredRow.verifyChain c.sha256 store stored = some last) ∧
      ∀ s, w.process = some s → s.isLatched = false →
        s.lastSeq = last.1 ∧ s.lastTag = last.2 ∧ s.known = knownOf w.rows) ∧
    acknowledgementsPrecede w.rows = true ∧
    (∀ o : Opening, o.checks = none → o.reads = true →
      (qualify c store.text o w.rows).1 ≠ .error .chain) ∧
    ∀ (rows rows' : List StoredRow) (last last' : Nat × Text),
      StoredRow.CollisionFree c.sha256 store (rows ++ rows') →
      StoredRow.verifyChain c.sha256 store rows = some last →
      StoredRow.verifyChain c.sha256 store rows' = some last' → last.2 = last'.2 →
      rows = rows' := by
  have hw : Lasting c store.text w := hrun.invariant (fun h hstep => h.happens hstep) lasting_new
  refine ⟨?_, hw.acknowledgements, fun o hchecks hreads => hw.opens hreads hchecks, ?_⟩
  · obtain ⟨last, hlast⟩ := hw.chain
    refine ⟨last, hlast, fun stored hstored => ?_, fun s hs hopen => ?_⟩
    · rw [StoredRow.verifyChain_shows hstored, hlast]
    obtain ⟨hconn, hsound, -⟩ := hw.process s hs
    obtain ⟨last', hlast', hcurrent⟩ := hsound.chain
    rw [hconn, hlast] at hlast'
    obtain rfl := Option.some.inj hlast'
    obtain rfl := hcurrent hopen
    exact ⟨rfl, rfl, hconn ▸ (hsound.valid.current hopen).known⟩
  · intro rows rows' last last' hfree h h' htag
    exact StoredRow.last_tag_determines_rows hfree h h' htag

/-- The id of the store, as the source holds it. -/
def sampleStr : Str where
  text := sampleStore
  fits := by decide +kernel

/-- The rows of the store, column by column. -/
def sampleRows : List StoredRow :=
  let session : Str := ⟨"a1b2c3d4e5f60718293a4b5c6d7e8f90", by decide +kernel⟩
  let tag : Str := ⟨(hexEncode (crashDigests.getD 0 [])).toList, by decide +kernel⟩
  [{ seq := 1
     session
     storedMs := 1000
     phase := ⟨"session_opened", by decide +kernel⟩
     commitment := none
     body := ⟨jsonOf .sessionOpened (.session session.text), by decide +kernel⟩
     prev := ⟨genesis, by decide +kernel⟩
     tag },
   { seq := 2
     session
     storedMs := 1001
     phase := ⟨"started", by decide +kernel⟩
     commitment := some ⟨"c0ffee01", by decide +kernel⟩
     body := ⟨(sampleRecord .started "c0ffee01").json, by decide +kernel⟩
     prev := tag
     tag := ⟨(hexEncode (crashDigests.getD 1 [])).toList, by decide +kernel⟩ }]

/-- An opening whose clock stands still. -/
def steadyOpening (wallMs : Nat) : Opening := { sampleOpening with disks _ := soundDisk wallMs }

theorem crash_chain_verifies_again :
    ∃ w, Run (TimelyHappens crashCodec sampleStr.text) .new [.opening (steadyOpening 1000),
        .call ⟨.gate (sampleRecord .started "c0ffee01"), .result (some 2), false⟩, .crash] w ∧
      Forall₂ (StoredRow.Shows crashCodec) sampleRows w.rows ∧
      StoredRow.CollisionFree crashCodec.sha256 sampleStr (sampleRows ++ sampleRows) ∧
      ∃ last, verifyChain crashCodec sampleStr.text w.rows = some last ∧
        StoredRow.verifyChain crashCodec.sha256 sampleStr sampleRows = some last := by
  have htimely : ∀ n : Nat, n < 2 ^ 63 → ∀ _ : Nat, (soundDisk n).Timely := fun n hn _ => hn
  have hrun : ∃ w : World, Run (TimelyHappens crashCodec sampleStr.text) .new
      [.opening (steadyOpening 1000),
        .call ⟨.gate (sampleRecord .started "c0ffee01"), .result (some 2), false⟩, .crash] w ∧
      Forall₂ (StoredRow.Shows crashCodec) sampleRows w.rows := by
    refine ⟨_, .cons (.opening _ rfl (htimely 1000 (by decide)))
      (.cons (.call (fun _ => soundDisk 1001) rfl (htimely 1001 (by decide)) rfl rfl)
        (.cons .crash (.nil _))), .cons ?_ (.cons ?_ .nil)⟩ <;>
      exact ⟨rfl, rfl, rfl, rfl, rfl, rfl, rfl, rfl⟩
  obtain ⟨w, hrun, hshows⟩ := hrun
  obtain ⟨⟨last, hlast, hstored, -⟩, -⟩ := chain_verifies_again hrun
  refine ⟨w, hrun, hshows, ⟨?_, ?_⟩, last, hlast, hstored _ hshows⟩ <;> decide +kernel

end NexusOs.Evidence
