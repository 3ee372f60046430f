import NexusOs.Evidence.Store.Opening
import NexusOs.Lib.Outbox
import NexusOs.Lib.Transition

/-!
# One session

The calls of a session are the turns of an outbox: each call is an offer, a row is an offer
placed, and the records owed are the offers kept.
-/

namespace NexusOs.Evidence

open List

open Relation (ReflTransGen)
open Transition (Run)

/-- A call of a session, its answer, and whether the store is latched after it. -/
structure Event where
  call : Call
  answer : Answer
  latched : Bool

/-- A call, whatever SQLite does in it. -/
def step (c : Codec) (s : Inner) (event : Event) (s' : Inner) : Prop :=
  ∃ disks, event.call.run c disks s = (event.answer, s') ∧ event.latched = s'.isLatched

theorem step_run (c : Codec) (disks : Nat → Disk) (call : Call) (s : Inner) :
    step c s ⟨call, (call.run c disks s).1, (call.run c disks s).2.isLatched⟩
      (call.run c disks s).2 :=
  ⟨disks, rfl, rfl⟩

variable {event : Event}

/-- What a call of a session can do. -/
theorem step_turn {c : Codec} {s s' : Inner} (h : step c s event s') :
    Turn c (fun _ => True) s (event.call.offer s.session) event.answer.verdict s' := by
  obtain ⟨disks, hrun, -⟩ := h
  have hturn := turn_run (D := fun _ => True) c disks (fun _ => trivial) event.call s
  rwa [hrun] at hturn

/-! ## The outbox of a session -/

/-- The outbox tells what the session wrote, found and owes of the contents in `offers`. -/
structure Agrees (offers : Nat → Content) (first s : Inner) (b : Outbox) : Prop where
  rows : ∃ new, s.conn = first.conn ++ new ∧ new.map Row.toContent = b.placed.map offers
  stuck : b.stuck = s.isLatched
  owed : s.isLatched = false → s.owed.map Owed.toContent = b.pending.map offers
  met : ∀ i ∈ b.met, (offers i).phase.onceOnly = true ∧ ∃ row ∈ s.conn, row.toContent = offers i

variable {events : List Event}

section Simulation

variable {c : Codec} {D : Disk → Prop} {offers : Nat → Content} {first s s' : Inner} {b : Outbox}
  {paid : Bool}

theorem Agrees.snoc (h : Agrees offers first s b) {row : Row} {i : Nat}
    (hrow : row.toContent = offers i) :
    ∃ new, s.conn ++ [row] = first.conn ++ new ∧
      new.map Row.toContent = (b.placed ++ [i]).map offers := by
  obtain ⟨new, heq, hnew⟩ := h.rows
  exact ⟨new ++ [row], by rw [heq, append_assoc], by simp [hnew, hrow]⟩

theorem Agrees.met_snoc (h : Agrees offers first s b) (row : Row) :
    ∀ i ∈ b.met, (offers i).phase.onceOnly = true ∧
      ∃ row' ∈ s.conn ++ [row], row'.toContent = offers i := by
  intro i hi
  obtain ⟨honce, row', hrow', hcontent⟩ := h.met i hi
  exact ⟨honce, row', mem_append_left _ hrow', hcontent⟩

/-- Paying is draining the queue. -/
theorem Pays.drains (h : Pays c D s paid s') (hb : Agrees offers first s b)
    (hopen : s.isLatched = false) :
    ∃ b', ReflTransGen Outbox.Drain b b' ∧ Agrees offers first s' b' ∧
      (paid = true → s'.isLatched = false ∧ s'.owed = []) := by
  induction h generalizing b with
  | done howed => exact ⟨b, .refl, hb, fun _ => ⟨hopen, howed⟩⟩
  | @paid s s' s'' owed rest result seq paid howed happend hresult _ ih =>
    have hunstuck : b.stuck = false := hb.stuck.trans hopen
    have hmap := hb.owed hopen
    rw [howed, map_cons, eq_comm, map_eq_cons_iff] at hmap
    obtain ⟨i, pending, hpending, hi, hrest⟩ := hmap
    cases happend with
    | committed disk =>
      obtain ⟨b', hdrains, hb'⟩ := ih (b := { b with placed := b.placed ++ [i], pending })
        ⟨hb.snoc hi.symm, hb.stuck, fun _ => hrest.symm, hb.met_snoc _⟩ hopen
      exact ⟨b', .head (.place hunstuck hpending) hdrains, hb'⟩
    | present _ honce hrow hcontent =>
      obtain ⟨b', hdrains, hb'⟩ := ih (b := { b with met := i :: b.met, pending })
        ⟨hb.rows, hb.stuck, fun _ => hrest.symm, by
          intro j hj
          rcases mem_cons.mp hj with rfl | hj
          · exact ⟨hi ▸ honce, _, hrow, hcontent.trans hi.symm⟩
          · exact hb.met j hj⟩ hopen
      exact ⟨b', .head (.meet hunstuck hpending) hdrains, hb'⟩
    | latched hlatched => simp [hlatched] at hopen
    | notCommitted => simp [Append.seq?] at hresult
    | lost _ hmem =>
      simp only [mem_cons, not_mem_nil, or_false] at hmem
      rcases hmem with rfl | rfl | rfl <;> simp [Append.seq?] at hresult
    | kept => simp [Append.seq?] at hresult
  | @stopped s s' owed rest result howed happend hresult =>
    have hunstuck : b.stuck = false := hb.stuck.trans hopen
    have hmap := hb.owed hopen
    rw [howed, map_cons, eq_comm, map_eq_cons_iff] at hmap
    obtain ⟨i, pending, hpending, hi, hrest⟩ := hmap
    cases happend with
    | committed | present => simp [Append.seq?] at hresult
    | latched hlatched => simp [hlatched] at hopen
    | notCommitted => exact ⟨b, .refl, hb, by simp⟩
    | lost => exact ⟨_, .single .stick, ⟨hb.rows, rfl, by simp [Inner.latch], hb.met⟩, by simp⟩
    | kept disk =>
      exact ⟨_, .single (.stickPlaced hunstuck hpending),
        ⟨hb.snoc hi.symm, rfl, by simp [Inner.latch], hb.met_snoc _⟩, by simp⟩

/-- The verdict on an offer and the latch tell what became of it. -/
def Verdict.Fits : Verdict → Bool → Outbox.Outcome → Prop
  | .written _, _, o => o = .placed ∨ o = .met
  | .owed, _, o => o = .kept
  | .refused, false, o => o = .refused
  | .refused, true, o => o = .lost

/-- A call is a turn of the outbox. -/
theorem Turn.simulated {content : Content} {verdict : Verdict} (h : Turn c D s content verdict s')
    (hb : Agrees offers first s b) (hopen : s.isLatched = false)
    (hcontent : offers b.outcomes.length = content) :
    ∃ b' o, Outbox.Turn b b' ∧ Agrees offers first s' b' ∧ b'.outcomes = b.outcomes ++ [o] ∧
      verdict.Fits s'.isLatched o := by
  -- an offer that is refused or lost after the queue was drained to `mid`
  have hrefuse : ∀ {s' : Inner} {mid : Outbox}, ReflTransGen Outbox.Drain b mid →
      Agrees offers first s' mid → ∃ b' o, Outbox.Turn b b' ∧ Agrees offers first s' b' ∧
        b'.outcomes = b.outcomes ++ [o] ∧ Verdict.refused.Fits s'.isLatched o := by
    intro s' mid hdrains hmid
    have houtcomes := Outbox.outcomes_drains hdrains
    cases hlatched : s'.isLatched with
    | false =>
      exact ⟨_, .refused, ⟨mid, hdrains, .refuse⟩, ⟨hmid.rows, hmid.stuck, hmid.owed, hmid.met⟩,
        by rw [houtcomes], rfl⟩
    | true =>
      exact ⟨_, .lost, ⟨mid, hdrains, .lose⟩,
        ⟨hmid.rows, hlatched.symm, by simp [hlatched], hmid.met⟩, by rw [houtcomes], rfl⟩
  cases h with
  | away => exact hrefuse .refl hb
  | unpaid hpays =>
    obtain ⟨mid, hdrains, hmid, -⟩ := hpays.drains hb hopen
    exact hrefuse hdrains hmid
  | overfull hpays =>
    obtain ⟨mid, hdrains, hmid, -⟩ := hpays.drains hb hopen
    exact hrefuse (.tail hdrains .stick) ⟨hmid.rows, rfl, by simp [Inner.latch], hmid.met⟩
  | owed hpays hopen' hlength howed =>
    obtain ⟨mid, hdrains, hmid, -⟩ := hpays.drains hb hopen
    have houtcomes := Outbox.outcomes_drains hdrains
    refine ⟨_, .kept, ⟨mid, hdrains, .keep (hmid.stuck.trans hopen')⟩,
      ⟨hmid.rows, hmid.stuck, fun h => ?_, hmid.met⟩, by rw [houtcomes], rfl⟩
    simp only [map_append, hmid.owed hopen', map_cons, map_nil, houtcomes, howed, hcontent]
  | written hpays happend hseq =>
    obtain ⟨mid, hdrains, hmid, hpaid⟩ := hpays.drains hb hopen
    obtain ⟨hopen', howed⟩ := hpaid rfl
    have houtcomes := Outbox.outcomes_drains hdrains
    have hpending : mid.pending = [] := by simpa [howed] using (hmid.owed hopen').symm
    rw [← houtcomes] at hcontent
    cases happend with
    | committed disk =>
      refine ⟨_, .placed, ⟨mid, hdrains, .place (hmid.stuck.trans hopen') hpending⟩,
        ⟨hmid.snoc hcontent.symm, hmid.stuck, hmid.owed, hmid.met_snoc _⟩,
        by rw [houtcomes], .inl rfl⟩
    | present _ honce hrow hrowContent =>
      refine ⟨_, .met, ⟨mid, hdrains, .meet⟩,
        ⟨hmid.rows, hmid.stuck, hmid.owed, fun i hi => ?_⟩, by rw [houtcomes], .inr rfl⟩
      rcases mem_cons.mp hi with rfl | hi
      · exact ⟨hcontent ▸ honce, _, hrow, hrowContent.trans hcontent.symm⟩
      · exact hmid.met i hi
    | latched hlatched => simp [hlatched] at hopen'
    | notCommitted | kept => simp [Append.seq?] at hseq
    | lost _ hmem =>
      simp only [mem_cons, not_mem_nil, or_false] at hmem
      rcases hmem with rfl | rfl | rfl <;> simp [Append.seq?] at hseq
  | unwritten hpays happend hresult =>
    obtain ⟨mid, hdrains, hmid, hpaid⟩ := hpays.drains hb hopen
    obtain ⟨hopen', howed⟩ := hpaid rfl
    have houtcomes := Outbox.outcomes_drains hdrains
    have hpending : mid.pending = [] := by simpa [howed] using (hmid.owed hopen').symm
    rw [← houtcomes] at hcontent
    cases happend with
    | committed => exact absurd rfl (hresult _)
    | latched | present | notCommitted => exact hrefuse hdrains hmid
    | lost => exact hrefuse (.tail hdrains .stick) ⟨hmid.rows, rfl, by simp [Inner.latch], hmid.met⟩
    | kept disk =>
      exact ⟨_, .lost, ⟨mid, hdrains, .losePlaced (hmid.stuck.trans hopen') hpending⟩,
        ⟨hmid.snoc hcontent.symm, rfl, by simp [Inner.latch], hmid.met_snoc _⟩,
        by rw [houtcomes], rfl⟩

/-- A call of a session is a turn of its outbox. -/
theorem step_simulated (h : step c s event s') (hb : Agrees offers first s b)
    (hoffer : offers b.outcomes.length = event.call.offer s.session) :
    ∃ b' o, Outbox.Turn b b' ∧ Agrees offers first s' b' ∧ b'.outcomes = b.outcomes ++ [o] ∧
      event.answer.verdict.Fits event.latched o := by
  have hturn := step_turn h
  obtain ⟨disks, hrun, hlatched⟩ := h
  rw [hlatched]
  by_cases hopen : s.isLatched = true
  · obtain ⟨hverdict, hsame⟩ := run_latched c disks event.call hopen
    rw [hrun] at hverdict hsame
    obtain rfl : s' = s := hsame
    rw [show event.answer.verdict = .refused from hverdict, hopen]
    exact ⟨_, .lost, ⟨b, .refl, .lose⟩, ⟨hb.rows, hopen.symm, by simp [hopen], hb.met⟩, rfl, rfl⟩
  · exact hturn.simulated hb (by simpa using hopen) hoffer

theorem step_kept (h : step c s event s') : Kept (fun _ => True) s s' :=
  ((step_turn h).grows (fun _ _ => trivial) trivial).kept

/-- A session is a run of its outbox. -/
theorem run_simulated (h : Run (step c) s events s') (hb : Agrees offers first s b)
    (hoffers : ∀ (i : Nat) e, events[i]? = some e →
      offers (b.outcomes.length + i) = e.call.offer s.session) :
    ∃ b' outcomes, ReflTransGen Outbox.Turn b b' ∧ Agrees offers first s' b' ∧
      b'.outcomes = b.outcomes ++ outcomes ∧
      List.Forall₂ (fun e o => e.answer.verdict.Fits e.latched o) events outcomes := by
  induction h generalizing b with
  | nil => exact ⟨b, [], .refl, hb, by simp, .nil⟩
  | @cons s middle last event events hstep _ ih =>
    obtain ⟨b₁, o, hturn, hb₁, houtcomes, hfits⟩ := step_simulated hstep hb (hoffers 0 _ rfl)
    have hsession := (step_kept hstep).session
    obtain ⟨b', outcomes, hturns, hb', houtcomes', hfits'⟩ := ih hb₁ fun i e he => by
      have := hoffers (i + 1) e (by simpa using he)
      rwa [houtcomes, hsession, length_append, Nat.add_right_comm]
    exact ⟨b', o :: outcomes, .head hturn hturns, hb', by simp [houtcomes', houtcomes],
      .cons hfits hfits'⟩

theorem Pays.length_owed (h : Pays c D s paid s') : s'.owed.length ≤ s.owed.length := by
  induction h with
  | done => exact le_rfl
  | paid howed happend _ _ ih =>
    simp only [howed, length_cons] at ih ⊢
    omega
  | stopped _ happend => rw [happend.same.1]

theorem step_length_owed (h : step c s event s') (hs : s.owed.length ≤ owedCapacity) :
    s'.owed.length ≤ owedCapacity := by
  have hturn := step_turn h
  generalize event.answer.verdict = verdict at hturn
  cases hturn with
  | away => exact hs
  | unpaid hpays | overfull hpays => exact Nat.le_trans hpays.length_owed hs
  | owed _ _ hlength =>
    rw [length_append]
    exact hlength
  | written hpays happend | unwritten hpays happend =>
    exact happend.same.1 ▸ Nat.le_trans hpays.length_owed hs

/-- Nothing happens any more in a latched session. -/
theorem run_of_latched (h : Run (step c) s events s') (hs : s.isLatched = true) :
    s' = s ∧ ∀ event ∈ events, event.answer.verdict = .refused ∧ event.latched = true := by
  induction h with
  | nil => exact ⟨rfl, by simp⟩
  | @cons s middle last event events hstep _ ih =>
    obtain ⟨disks, hrun, hlatched⟩ := hstep
    obtain ⟨hverdict, hsame⟩ := run_latched c disks event.call hs
    rw [hrun] at hverdict hsame
    obtain rfl : middle = s := hsame
    obtain ⟨hlast, hevents⟩ := ih hs
    exact ⟨hlast, forall_mem_cons.mpr ⟨⟨hverdict, hlatched.trans hs⟩, hevents⟩⟩

/-! ## Answers -/

/-- The number a call answers is that of a row with what it offered. -/
theorem step_holds {seq : Nat} (h : step c s event s') (hs : Valid s)
    (hseq : event.answer.verdict = .written seq) :
    Holds s'.conn seq (event.call.offer s.session) := by
  have hturn := step_turn h
  rw [hseq] at hturn
  cases hturn with
  | @written mid _ result _ hpays happend hresult =>
    have hmid : Valid mid := (hpays.grows (P := fun _ => True) fun _ _ => trivial).kept.valid hs
    refine happend.holds hmid ?_
    cases result <;> simp_all [Append.seq?]

theorem Run.kept (h : Run (step c) s events s') : Kept (fun _ => True) s s' :=
  h.relates _ .refl .trans step_kept

end Simulation

/-- `content` is what the call with number `i` offered. -/
def Offered (session : Utf8.Text) (events : List Event) (i : Nat) (content : Content) : Prop :=
  ∃ event, events[i]? = some event ∧ content = event.call.offer session

/-- The offer of a call is of a once-only phase and in the store. -/
def Found (first t : Inner) (event : Event) : Prop :=
  (event.call.offer first.session).phase.onceOnly = true ∧
    ∃ row ∈ t.conn, row.toContent = event.call.offer first.session

/-- What holds of a session from `first` to `t` with the calls `events`: the offers of the calls
`placed` were written, those of the calls `pending` are owed. -/
structure InOrder (c : Codec) (first : Inner) (events : List Event) (t : Inner)
    (placed pending : List Nat) : Prop where
  /-- The number answered is that of a row with exactly what was offered. -/
  answered : ∀ event ∈ events, ∀ seq, event.answer.seq? = some seq →
    Holds t.conn seq (event.call.offer first.session)
  /-- The rows of the session are offers, in their order. -/
  rows : ∃ new, t.conn = first.conn ++ new ∧
    List.Forall₂ (fun row i => Offered first.session events i row.toContent) new placed
  ordered : placed.Pairwise (· < ·)
  /-- A store that is not latched owes the pending offers, in order, all made after those written.
  -/
  queue : t.isLatched = false →
    List.Forall₂ (fun owed i => Offered first.session events i owed.toContent) t.owed pending ∧
      (placed ++ pending).Pairwise (· < ·)
  /-- What was owed is written, was found in the store, or is still owed. -/
  owed : ∀ (i : Nat) event, events[i]? = some event → event.answer = .status .owed →
    i ∈ placed ∨ Found first t event ∨ t.isLatched = true ∨ i ∈ pending
  /-- Nothing offered later is written before what is owed. -/
  overtaken : ∀ (i : Nat) event, events[i]? = some event → event.answer = .status .owed →
    ∀ j ∈ placed, i < j → i ∈ placed ∨ Found first t event
  /-- A gate that answers an error without a latch writes nothing and owes nothing. -/
  refused : ∀ (i : Nat) event, events[i]? = some event → event.answer = .result none →
    event.latched = false → i ∉ placed ∧ i ∉ pending
  capacity : t.owed.length ≤ 8192
  /-- A latched store writes nothing any more, and every later end is uncertain. -/
  latched : ∀ before after middle, events = before ++ after → Run (step c) first before middle →
    Run (step c) middle after t → middle.isLatched = true →
    t.conn = middle.conn ∧ ∀ event ∈ after, event.answer ∈ [.result none, .status .uncertain]

/-- The contents of a list are the offers with the numbers of another. -/
theorem forall₂_offered {α : Type} {f : α → Content} {session : Utf8.Text} {offers : Nat → Content}
    {l : List α} {numbers : List Nat}
    (hoffers : ∀ (i : Nat) e, events[i]? = some e → offers i = e.call.offer session)
    (hnumbers : ∀ i ∈ numbers, i < events.length) (h : l.map f = numbers.map offers) :
    List.Forall₂ (fun a i => Offered session events i (f a)) l numbers := by
  induction numbers generalizing l with
  | nil =>
    obtain rfl : l = [] := by simpa using h
    exact .nil
  | cons i numbers ih =>
    obtain ⟨a, l, rfl, ha, hl⟩ := map_eq_cons_iff.mp h
    have hi := List.getElem?_eq_getElem (hnumbers i mem_cons_self)
    exact .cons ⟨_, hi, ha.trans (hoffers i _ hi)⟩
      (ih (fun j hj => hnumbers j (mem_cons_of_mem _ hj)) hl)

/-- What one session writes, finds and owes, with any faults: every number answered is that of a row
with exactly what was offered, the rows stand in the order of the offers, what is owed is written
before anything offered later, what a gate refused is not written, at most 8192 records are owed,
and a latched store writes nothing any more. -/
theorem session_writes_in_order {c : Codec} {store : Utf8.Text} {o : Opening} {rows : List Row}
    {first t : Inner} {events : List Event} (hopen : (qualify c store o rows).1 = .ok first)
    (hrun : Run (step c) first events t) :
    ∃ placed pending, InOrder c first events t placed pending := by
  obtain ⟨hvalid, hunlatched, howed⟩ := valid_of_qualify hopen
  let offers (i : Nat) : Content :=
    ((events[i]?).map fun e => e.call.offer first.session).getD (Inner.acknowledgement 0)
  have hoffers : ∀ (i : Nat) e, events[i]? = some e → offers i = e.call.offer first.session := by
    intro i e he
    simp [offers, he]
  have hfirst : Agrees offers first first .empty :=
    ⟨⟨[], by simp, rfl⟩, hunlatched.symm, fun _ => by rw [howed]; rfl, by simp [Outbox.empty]⟩
  obtain ⟨b, outcomes, hturns, hb, houtcomes, hfits⟩ := run_simulated hrun hfirst
    (by simpa [Outbox.empty] using hoffers)
  have horderly : b.Orderly := by
    clear hb houtcomes
    induction hturns with
    | refl => exact Outbox.orderly_empty
    | tail _ hturn ih => exact ih.turn hturn
  obtain rfl : b.outcomes = outcomes := by simpa [Outbox.empty] using houtcomes
  have hlength : b.outcomes.length = events.length := hfits.length_eq.symm
  -- what the answer of a call says about its offer
  have hfit : ∀ (i : Nat) e, events[i]? = some e →
      ∃ outcome, b.outcomes[i]? = some outcome ∧ e.answer.verdict.Fits e.latched outcome := by
    intro i e he
    obtain ⟨hi, rfl⟩ := List.getElem?_eq_some_iff.mp he
    exact ⟨_, List.getElem?_eq_getElem (hlength ▸ hi), hfits.get hi (hlength ▸ hi)⟩
  have hkept : ∀ (i : Nat) e, events[i]? = some e → e.answer = .status .owed →
      b.outcomes[i]? = some .kept := by
    intro i e he howed
    obtain ⟨outcome, hi, hfit⟩ := hfit i e he
    rw [howed] at hfit
    exact hi.trans (congrArg some hfit)
  have hfound : ∀ (i : Nat) e, events[i]? = some e → i ∈ b.met → Found first t e := by
    intro i e he hi
    have hmet := hb.met i hi
    rwa [hoffers i e he] at hmet
  refine ⟨b.placed, b.pending, ?_, ?_, horderly.placed_lt, ?_, ?_, ?_, ?_, ?_, ?_⟩
  · intro event hevent seq hseq
    obtain ⟨before, after, source, target, -, hbefore, hstep, hafter⟩ := hrun.of_mem hevent
    have hverdict : event.answer.verdict = .written seq := by
      generalize event.answer = answer at hseq
      rcases answer with (_ | _) | (_ | _ | _) <;> simp_all [Answer.seq?, Answer.verdict]
    have hholds := step_holds hstep ((Run.kept hbefore).valid hvalid) hverdict
    rw [(Run.kept hbefore).session] at hholds
    obtain ⟨new, hnew, -⟩ := (Run.kept hafter).rows
    exact hholds.mono ⟨new, hnew.symm⟩
  · obtain ⟨new, hrows, hnew⟩ := hb.rows
    exact ⟨new, hrows, forall₂_offered hoffers
      (fun i hi => hlength ▸ horderly.placed_made i hi) hnew⟩
  · intro hopen
    exact ⟨forall₂_offered hoffers (fun i hi => hlength ▸ horderly.pending_made i hi)
      (hb.owed hopen), horderly.queue (hb.stuck.trans hopen)⟩
  · intro i e he howed
    rcases horderly.kept i (hkept i e he howed) with hi | hi | hi
    · exact .inl hi
    · exact .inr (.inl (hfound i e he hi))
    · exact .inr (.inr (.inr hi))
  · intro i e he howed j hj hlt
    rcases horderly.kept i (hkept i e he howed) with hi | hi | hi
    · exact .inl hi
    · exact .inr (hfound i e he hi)
    rcases horderly.passed i hi with hplaced | hbehind
    · exact .inl hplaced
    · have := hbehind j hj
      omega
  · intro i e he hnone hlatched
    obtain ⟨outcome, hi, hfit⟩ := hfit i e he
    rw [hnone, hlatched] at hfit
    exact horderly.refused i (hi.trans (congrArg some hfit))
  · have hcapacity : t.owed.length ≤ owedCapacity :=
      hrun.invariant (fun hs hstep => step_length_owed hstep hs) (by simp [howed])
    exact hcapacity
  · intro before after middle _ _ hafter hlatched
    obtain ⟨rfl, hevents⟩ := run_of_latched hafter hlatched
    refine ⟨rfl, fun event hevent => ?_⟩
    have hverdict := (hevents event hevent).1
    generalize event.answer = answer at hverdict
    rcases answer with (_ | _) | (_ | _ | _) <;> simp_all [Answer.verdict]

/-! ## A session -/

/-- The JSON of a body, as `serde_json` writes it. -/
def jsonOf (phase : RowPhase) : Body → Utf8.Text
  | .record json => json
  | .session session =>
    "\x7b\"event_kind\":\"p3.evidence.statement\",\"session\":\"" ++ session ++
      "\",\"statement\":\"" ++ phase.asStr ++ "\"\x7d"
  | .unsettled commitment startedSeq =>
    "\x7b\"commitment\":\"" ++ commitment ++
      "\",\"event_kind\":\"p3.evidence.statement\",\"started_seq\":" ++
      startedSeq.repr.toList ++ ",\"statement\":\"unsettled\",\"text\":\"" ++
      "outcome not recorded; the effect may have occurred" ++ "\"\x7d"
  | .acknowledged coversThrough =>
    "\x7b\"covers_through\":" ++ coversThrough.repr.toList ++
      ",\"event_kind\":\"p3.evidence.statement\"," ++
      "\"statement\":\"acknowledged\"\x7d"

/-- SHA-256 on the tagged fields of rows with the given digests. The byte 159 of the fields is the
low byte of the row's number. -/
def codecOf (digests : List Framing.Bytes) : Codec where
  sha256 message := digests.getD ((message.getD 159 0).toNat - 1) []
  json := jsonOf

/-- SHA-256 of the tagged fields of the rows below. -/
def sampleDigests : List Framing.Bytes := [
  0x775002499e1d1e92eadd1461902327f28f32328e2dc86c1da73c714aa6f33afb,
  0xe3b06d6f23bf52e02ed2da702a2ce64cc837152665e9e86388946678ec2aaa03,
  0x784f36f7dd1dda28cfcb86395dc67c7509a1fdbe43ede3fb085c225ccea8ca6e,
  0xfacea780392f5380890fedf9d9ed82e25635b4279f3b8da11dcf48deb7c3b864].map (Framing.beBytes 32)

/-- SHA-256 and `serde_json` on the rows below. -/
def sampleCodec : Codec := codecOf sampleDigests

/-- The id of the store. -/
def sampleStore : Utf8.Text := "5f0c1d2e3a4b5c6d7e8f90a1b2c3d4e5"

/-- A disk without faults. -/
def soundDisk (wallMs : Nat) : Disk where
  begins := true
  autocommits := true
  inserts := true
  rollsBack := true
  reads := true
  commit := .done
  wallMs

/-- A disk on which no transaction begins. -/
def busyDisk : Disk := { soundDisk 1001 with begins := false }

/-- An opening without faults. -/
def soundOpening (session : String) (wallMs : Nat) : Opening where
  checks := none
  reads := true
  session := some session.toList
  disks i := soundDisk (wallMs + i)

/-- The opening of a new store. -/
def sampleOpening : Opening := soundOpening "a1b2c3d4e5f60718293a4b5c6d7e8f90" 1000

/-- A record of a commitment. -/
def sampleRecord (phase : EvidencePhase) (commitment : String) : EvidenceRecord where
  phase
  commitment := some commitment.toList
  json := "\x7b\"phase\":\"" ++ phase.asStr ++ "\"\x7d"

/-- An effect starts, its end is owed, and the next gate writes the end and its own record. -/
def sampleEvents : List Event := [
  ⟨.gate (sampleRecord .started "c0ffee01"), .result (some 2), false⟩,
  ⟨.endRecord (sampleRecord .finished "c0ffee01"), .status .owed, false⟩,
  ⟨.gate (sampleRecord .authorized "c0ffee02"), .result (some 4), false⟩]

/-- The events of a session can be those of `sampleEvents`. -/
theorem sample_run :
    ∃ first, (qualify sampleCodec sampleStore sampleOpening []).1 = .ok first ∧
      ∃ t, Run (step sampleCodec) first sampleEvents t := by
  exact ⟨_, rfl, _, .cons (step_run _ (fun _ => soundDisk 1001) _ _)
    (.cons (step_run _ (fun _ => busyDisk) _ _)
      (.cons (step_run _ (fun i => soundDisk (1002 + i)) _ _) (.nil _)))⟩

theorem sample_session_in_order :
    ∃ first, (qualify sampleCodec sampleStore sampleOpening []).1 = .ok first ∧
      ∃ t, Run (step sampleCodec) first sampleEvents t ∧
        ∃ placed pending, InOrder sampleCodec first sampleEvents t placed pending := by
  obtain ⟨first, hopen, t, hrun⟩ := sample_run
  exact ⟨first, hopen, t, hrun, session_writes_in_order hopen hrun⟩

/-- An effect starts and ends; both records are offered again to a busy store, which refuses the
one and owes the other; and another record is written. -/
def againEvents : List Event := [
  ⟨.gate (sampleRecord .started "c0ffee01"), .result (some 2), false⟩,
  ⟨.endRecord (sampleRecord .finished "c0ffee01"), .status (.recorded 3), false⟩,
  ⟨.gate (sampleRecord .started "c0ffee01"), .result none, false⟩,
  ⟨.endRecord (sampleRecord .finished "c0ffee01"), .status .owed, false⟩,
  ⟨.gate (sampleRecord .authorized "c0ffee02"), .result (some 4), false⟩]

set_option maxRecDepth 2000 in
/-- The refused record is in the store, and the owed one is not written a second time. -/
theorem sample_run_again :
    ∃ first, (qualify sampleCodec sampleStore sampleOpening []).1 = .ok first ∧
      ∃ s, Run (step sampleCodec) first (againEvents.take 3) s ∧
        ∃ t, Run (step sampleCodec) s (againEvents.drop 3) t ∧
          (∃ row ∈ t.conn, row.toContent = (sampleRecord .started "c0ffee01").content) ∧
          t.isLatched = false ∧ t.owed = [] ∧ ∀ row ∈ t.conn.drop s.conn.length,
            row.toContent ≠ (sampleRecord .finished "c0ffee01").content := by
  refine ⟨_, rfl, _, .cons (step_run _ (fun _ => soundDisk 1001) _ _)
    (.cons (step_run _ (fun _ => soundDisk 1002) _ _)
      (.single (step_run _ (fun _ => busyDisk) _ _))), _,
    .cons (step_run _ (fun _ => busyDisk) _ _)
      (.single (step_run _ (fun i => soundDisk (1002 + i)) _ _)), ?_, rfl, rfl, ?_⟩
  · exact ⟨_, mem_cons_of_mem _ mem_cons_self, rfl⟩
  · decide +kernel

/-- A record that a gate refused may be in the store, and an owed end may be settled without being
written: equal records were written before. -/
theorem refused_record_may_be_stored :
    (¬ ∀ (c : Codec) (store : Utf8.Text) (o : Opening) (rows : List Row) (first t : Inner)
        (events : List Event), (qualify c store o rows).1 = .ok first →
        Run (step c) first events t → ∀ event ∈ events, ∀ record, event.call = .gate record →
        event.answer = .result none → event.latched = false →
        ∀ row ∈ t.conn, row.toContent ≠ record.content) ∧
      ¬ ∀ (c : Codec) (store : Utf8.Text) (o : Opening) (rows : List Row) (first s t : Inner)
        (before after : List Event) (event : Event), (qualify c store o rows).1 = .ok first →
        Run (step c) first before s → Run (step c) s (event :: after) t →
        ∀ record, event.call = .endRecord record → event.answer = .status .owed →
        t.isLatched = false → t.owed = [] →
        ∃ row ∈ t.conn.drop s.conn.length, row.toContent = record.content := by
  obtain ⟨first, hopen, s, hbefore, t, hafter, ⟨row, hrow, hcontent⟩, hlatched, howed, hnew⟩ :=
    sample_run_again
  constructor <;> intro h
  · exact h _ _ _ _ _ _ _ hopen (hbefore.append hafter) _
      (mem_cons_of_mem _ (mem_cons_of_mem _ mem_cons_self)) _ rfl rfl rfl row hrow hcontent
  · obtain ⟨row, hrow, hcontent⟩ :=
      h _ _ _ _ _ _ _ _ _ _ hopen hbefore hafter _ rfl rfl hlatched howed
    exact hnew row hrow hcontent

end NexusOs.Evidence
