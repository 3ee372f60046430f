import NexusOs.HostSession.Monotone

/-!
# A session that is closed clean

From the contract of a close follows what a session closed clean has gone through
(`closed_clean_was_clean`).
-/

namespace NexusOs.HostSession

open Utf8 Evidence Threads Transition Tickets History List Run

section

variable {before after events : List Event} {x y z : State} {e : Event}

/-- The word is sealed at most once, and `finish` exchanges it at most once. -/
theorem run_once (hx : SessionRun events x) :
    events.countP seals ≤ 1 ∧ events.countP finishes ≤ 1 := by
  have hinv := run_closeInv hx
  have honce := hinv.once
  have hseal := hinv.sealPaid.countP_le
  have hfinish := hinv.finishPaid.countP_le
  have hhanded := hinv.handed
  rw [events_eq hx] at honce hseal hfinish hhanded
  have hbit : (x.now.shared.word.getLsbD 5).toNat ≤ 1 := Bool.toNat_le _
  omega

/-- The bits of a session that is closed clean. -/
theorem bits_of_closedClean {w : Word} (h : state w = .closedClean) :
    w.getLsbD 5 = true ∧ w.getLsbD 6 = true ∧ w.getLsbD 4 = false := by
  rw [← Bool.not_eq_true (w.getLsbD 4), ← sealed_iff, ← ready_iff, ← failed_iff]
  unfold state at h
  split at h
  · rename_i hsealed
    split_ifs at h with hready hfailed
    exact ⟨hsealed, hready, hfailed⟩
  · split_ifs at h

/-- The word of a session that is closed clean stays. -/
theorem run_closed (hx : SessionRun before x) (hstate : state (wordOf x) = .closedClean)
    (h : Run (Step machine) x after y) : wordOf y = wordOf x := by
  induction h generalizing before with
  | nil => rfl
  | @cons x middle y e after hstep hrest ih =>
    have hmiddle : SessionRun (before ++ [e]) middle := hx.append (.single hstep)
    have hsame : wordOf middle = wordOf x := by
      by_contra hne
      obtain ⟨hsealed, hready, -⟩ := bits_of_closedClean hstate
      obtain ⟨success, old, new, t, rfl⟩ := step_sealed hx hstep (sealed_iff.mpr hsealed) hne
      -- The session is closed by the one exchange of `finish`, so that this would be another.
      obtain ⟨e', he', hfinishes⟩ := (run_closeInv hx).ready hsealed hready
      rw [events_eq hx] at he'
      have honce := (run_once hmiddle).2
      have hpos : 0 < before.countP finishes := countP_pos_iff.mpr ⟨e', he', hfinishes⟩
      rw [countP_append, countP_singleton] at honce
      simp only [finishes, if_true] at honce
      omega
    rw [ih hmiddle (hsame ▸ hstate), hsame]

/-! ## Emergencies -/

/-- An emergency, on the ingress or on a cell. -/
def isEmergency : Event → Bool
  | .act _ (.exchange .emergency _ _) (.ok _) => true
  | .act _ (.exchange (.latch _ true) _ _) (.ok _) => true
  | _ => false

theorem isEmergency_iff : isEmergency e = true ↔ Emergency e := by
  constructor
  · intro h
    unfold isEmergency at h
    split at h
    · exact ⟨_, _, .inl ⟨_, rfl⟩⟩
    · exact ⟨_, _, .inr ⟨_, _, rfl⟩⟩
    · cases h
  · rintro ⟨old, new, ⟨t, rfl⟩ | ⟨tag, t, rfl⟩⟩ <;> rfl

/-- The epoch counts the emergencies of a run. -/
theorem run_epoch (hx : SessionRun before x) (h : Run (Step machine) x after y) :
    epoch (wordOf y) = min (epoch (wordOf x) + after.countP isEmergency) maxEpoch := by
  induction h generalizing before with
  | nil => exact (Nat.min_eq_left (epoch_le_max _)).symm
  | @cons x middle y e after hstep hrest ih =>
    rw [ih (hx.append (.single hstep)), countP_cons]
    obtain ⟨hcounts, hkeeps⟩ := step_epoch hx hstep
    by_cases he : isEmergency e = true
    · rw [hcounts (isEmergency_iff.mp he), if_pos he]
      omega
    · rw [hkeeps (mt isEmergency_iff.mpr he), if_neg he]
      rfl

/-- At most as many stops were taken as there were emergencies. -/
theorem run_stops (hx : SessionRun events x) :
    x.now.shared.stops.next = events.countP takesStop ∧
      events.countP takesStop ≤ events.countP isEmergency ∧ events.countP takesStop ≤ capacity := by
  have hinv := run_closeInv hx
  have htaken := hinv.taken
  have hroom := hinv.room
  have hpaid := hinv.stopPaid.countP_le
  rw [events_eq hx] at htaken hpaid
  have hcounts : events.countP countsEmergency ≤ events.countP isEmergency := by
    refine countP_mono_left fun e _ he => ?_
    unfold countsEmergency at he
    split at he
    · rfl
    · cases he
  exact ⟨htaken, Nat.le_trans hpaid hcounts, htaken ▸ hroom⟩

/-- A seal that found as many stops as its word counts emergencies: there are no more. -/
theorem run_received (hx : SessionRun events x) (h : epoch (wordOf x) ≤ x.now.shared.stops.next) :
    events.countP isEmergency = epoch (wordOf x) ∧ events.countP takesStop = epoch (wordOf x) := by
  have hepoch : epoch (wordOf x) = min (events.countP isEmergency) maxEpoch := by
    have hrun := run_epoch (.nil _) hx
    have hzero : epoch (wordOf (.initial {} : State)) = 0 := by decide
    rwa [hzero, Nat.zero_add] at hrun
  obtain ⟨hnext, hle, hroom⟩ := run_stops hx
  have hmax : capacity < maxEpoch := by decide
  omega

/-- The lock stays with a call that only has mild events. -/
theorem run_holder {t : Nat} (hx : SessionRun before x) (h : Run (Step machine) x after y)
    (hholder : x.now.shared.holder = some t) (hmild : ∀ e ∈ after, e.thread = t → mild e = true) :
    y.now.shared.holder = some t := by
  induction h generalizing before with
  | nil => exact hholder
  | @cons x middle y e after hstep hrest ih =>
    have hlock := (step_closeGuar hx hstep).lock (run_closeInv hx) (hmild e (by simp)) hholder
    exact ih (hx.append (.single hstep)) hlock.1 fun e' he' => hmild e' (by simp [he'])

/-- A word that is the same at both ends of a run is so all the time. -/
theorem run_word (hx : SessionRun before x) (h : Run (Step machine) x after y)
    (h' : Run (Step machine) y events z) (heq : wordOf x = wordOf z) : wordOf y = wordOf x := by
  have hfirst := run_onward hx h
  have hsecond := run_onward (hx.append h) h'
  rw [← heq] at hsecond
  exact (hfirst.antisymm hsecond).symm

end

/-! ## What a clean close went through -/

/-- The exchange of a seal. -/
abbrev sealEvent (t : Nat) (word : Word) : Event :=
  .act t (.exchange .sealing word (sealNext word)) (.ok ())

/-- A run to `z` that passes the state `s` after some of its events. -/
def Passes (done rest : List Event) (z s : State) : Prop :=
  SessionRun done s ∧ Run (Step machine) s rest z

/-- In a run to `z`, call `t` took the lock after `before`, read `word`, then all of `reads`, and
sealed it. -/
structure SealedClean (z : State) (t : Nat) (word : Word) (before mid reads after : List Event) :
    Prop where
  /-- It read every obligation as discharged. -/
  read : ReadClean t word reads
  /-- It held the lock all the time. -/
  locked : ∀ done rest s, mid ++ .act t .load word :: reads = done ++ rest →
    Passes (before ++ .act t .lock true :: done) (rest ++ sealEvent t word :: after) z s →
    s.now.shared.holder = some t
  /-- The word did not change since it was read. -/
  unchanged : ∀ done rest s, reads = done ++ rest →
    Passes (before ++ .act t .lock true :: (mid ++ .act t .load word :: done))
      (rest ++ sealEvent t word :: after) z s → wordOf s = word
  /-- When it sealed, all of it was still so. -/
  still : ∀ s, Passes (before ++ .act t .lock true :: (mid ++ .act t .load word :: reads))
    (sealEvent t word :: after) z s → StillClean word s.now.shared
  /-- The emergencies received and the stops registered are as many as the epoch. -/
  counted :
    (before ++ .act t .lock true :: (mid ++ .act t .load word :: reads)).countP isEmergency =
      epoch word ∧
    (before ++ .act t .lock true :: (mid ++ .act t .load word :: reads)).countP takesStop =
      epoch word

/-- The events of a session that was closed clean. -/
def CleanlyClosed (events : List Event) (z : State) : Prop :=
  ∃ t word before mid reads after,
    events = before ++ .act t .lock true ::
      (mid ++ .act t .load word :: (reads ++ sealEvent t word :: after)) ∧
    SealedClean z t word before mid reads after ∧
    InTurn [fun e => ∃ c, e = .ret t c .closeSeal, MotherVerified, MotherRecorded, PrimaryClosed,
      PrimaryRecorded, Delivered] after

section

variable {before after events : List Event} {x y z : State} {e : Event}

theorem sealing_iff : Sealing e ↔ seals e = true := by
  refine ⟨?_, sealing_of_seals⟩
  rintro ⟨old, new, t, rfl⟩
  rfl

/-- All is clean when a call seals. -/
theorem step_sealReady {t : Nat} {old new : Word} (hx : SessionRun before x)
    (h : Step machine x (.act t (.exchange .sealing old new) (.ok ())) y) :
    wordOf x = old ∧ new = sealNext old ∧ SealReady t old x.now := by
  obtain ⟨hold, -, hallowed, -⟩ := step_exchanged hx h ⟨t, rfl⟩
  exact ⟨hold, hallowed.2, (step_closeGuar hx h).promise.2⟩

/-- A seal, with what its call did before. -/
theorem run_sealedClean (hx : SessionRun before x) {t : Nat} {word : Word}
    {first mid reads : List Event}
    (hbefore : before = first ++ .act t .lock true :: (mid ++ .act t .load word :: reads))
    (hstep : Step machine x (sealEvent t word) y)
    (hmild : ∀ e ∈ mid ++ .act t .load word :: reads, e.thread = t → mild e = true)
    (hread : ReadClean t word reads) : SealedClean z t word first mid reads after := by
  have hword := (step_sealReady hx hstep).1
  have hlog : SessionRun (first ++ .act t .lock true :: (mid ++ .act t .load word :: reads)) x :=
    hbefore ▸ hx
  have hready := (step_sealReady hx hstep).2.2
  refine ⟨hread, ?_, ?_, ?_, ?_⟩
  · rintro done rest s hdone ⟨hs, -⟩
    obtain ⟨s₀, hs₀, hs⟩ := append_iff.mp hs
    obtain ⟨s₁, hlock, hs⟩ := cons_iff.mp hs
    refine run_holder (hs₀.append (.single hlock)) hs ?_ fun e he => hmild e ?_
    · cases hlock with
      | act hcall hperforms =>
        rw [hperforms.2]
        rfl
    · rw [hdone]
      exact mem_append_left _ he
  · rintro done rest s rfl ⟨hs, hz⟩
    have hs' : SessionRun
        ((first ++ .act t .lock true :: mid) ++ ([.act t .load word] ++ done)) s := by
      simpa using hs
    obtain ⟨s₀, hs₀, hs₁⟩ := append_iff.mp hs'
    obtain ⟨s₁, hload, hdone⟩ := cons_iff.mp hs₁
    obtain ⟨s₂, hrest', hz⟩ := append_iff.mp hz
    obtain ⟨s₃, hseal, -⟩ := cons_iff.mp hz
    have hread : wordOf s₁ = word := by
      cases hload with
      | act hcall hperforms =>
        obtain ⟨hallows, hshared⟩ := hperforms
        simp only [hshared]
        exact hallows.symm
    have hsealed := (step_sealReady (hs.append hrest') hseal).1
    rw [← hread]
    exact run_word (hs₀.append (.single hload)) hdone hrest' (hread.trans hsealed.symm)
  · rintro s ⟨hs, hz⟩
    obtain ⟨s', hseal, -⟩ := cons_iff.mp hz
    obtain ⟨_, _, _, _, _, _, _, hclean⟩ := (step_sealReady hs hseal).2.2
    exact hclean
  · obtain ⟨_, _, _, _, _, _, _, hclean⟩ := hready
    have hreceived := run_received hlog (hword.symm ▸ hclean.received)
    rwa [hword] at hreceived

/-- There is one seal in a run. -/
theorem sealing_unique (hx : SessionRun (before ++ e :: after) x) (he : Sealing e) :
    ∀ e' ∈ before ++ after, ¬Sealing e' := by
  intro e' he' hseals
  have honce := (run_once hx).1
  rw [countP_append, countP_cons, if_pos (sealing_iff.mp he)] at honce
  have hpos : 0 < (before ++ after).countP seals :=
    countP_pos_iff.mpr ⟨e', he', sealing_iff.mp hseals⟩
  rw [countP_append] at hpos
  omega

/-- The call that is handed the seal is the one that set it. -/
theorem handsSeal_thread (hx : SessionRun events x) {t : Nat}
    (hsingle : ∀ e ∈ events, seals e = true → e.thread = t) (he : e ∈ events)
    (hhands : handsSeal e = true) : ∃ c, e = .ret t c .closeSeal := by
  have hpaid := (run_closeInv hx).sealPaid
  rw [events_eq hx] at hpaid
  obtain ⟨e', he', hseals, hthread⟩ := hpaid.given he hhands
  have ht := hsingle e' he' hseals
  unfold handsSeal at hhands
  split at hhands
  · rename_i u c
    obtain rfl : u = t := hthread.symm.trans ht
    exact ⟨c, rfl⟩
  · cases hhands

/-- A session that is closed clean went through all of it. -/
theorem run_cleanlyClosed (hz : SessionRun events z) (hstate : state (wordOf z) = .closedClean) :
    CleanlyClosed events z := by
  obtain ⟨hsealed, hready, hfailed⟩ := bits_of_closedClean hstate
  obtain ⟨e, he, hfinishes⟩ := (run_closeInv hz).ready hsealed hready
  rw [events_eq hz] at he
  -- The exchange of `finish` was one of success, since the session did not fail.
  have hdelivered : InTurn (deliveryTurns ++ [Delivered]) events := by
    obtain ⟨before, after, source, target, rfl, hbefore, hstep, hafter⟩ := of_mem hz he
    have hpromise := (step_closeGuar hbefore hstep).promise
    have hfailure := (run_shows hz he).2.1
    unfold finishes at hfinishes
    split at hfinishes
    · rename_i t success old new _
      cases success with
      | false =>
        rw [hfailure ⟨old, new, .inr ⟨t, rfl⟩⟩] at hfailed
        cases hfailed
      | true =>
        have hturn := hpromise.2.2 rfl
        rw [events_eq hbefore] at hturn
        have hlast : Delivered (.act t (.exchange (.finish true) old new) (.ok ())) :=
          ⟨old, new, t, rfl⟩
        simpa using (hturn.next hlast).append after
    · cases hfinishes
  obtain ⟨before, row, after, rfl, hseal, hturns⟩ := hdelivered
  obtain ⟨source, hbefore, hrest⟩ := append_iff.mp hz
  obtain ⟨target, hstep, hafter⟩ := cons_iff.mp hrest
  obtain ⟨old, new, t, rfl⟩ := hseal
  obtain ⟨hword, rfl, hready⟩ := step_sealReady hbefore hstep
  obtain ⟨first, mid, reads, hevents, hmild, hread, -, -⟩ := hready
  rw [events_eq hbefore] at hevents
  refine ⟨t, old, first, mid, reads, after, by rw [hevents]; simp,
    run_sealedClean hbefore hevents hstep hmild hread, ?_⟩
  obtain ⟨early, row, late, rfl, hhands, hlate⟩ := hturns
  refine ⟨early, row, late, rfl, ?_, hlate⟩
  refine handsSeal_thread hz (fun e he hseals => ?_) (by simp) hhands
  rcases mem_append.mp he with he | he
  · exact absurd (sealing_iff.mpr hseals)
      (sealing_unique hz ⟨_, _, _, rfl⟩ e (mem_append_left _ he))
  rcases mem_cons.mp he with rfl | he
  · rfl
  · exact absurd (sealing_iff.mpr hseals)
      (sealing_unique hz ⟨_, _, _, rfl⟩ e (mem_append_right _ he))

/-- After a seal no producer registers, nothing is admitted and no emergency is accepted. -/
theorem after_sealing (hz : SessionRun (before ++ e :: after) z) (he : Sealing e) :
    ∀ e' ∈ after, ¬Emergency e' ∧
      (∀ number scope old new, ¬Exchanged (.admission number scope) old new e') ∧
      ∀ old new, ¬Exchanged .register old new e' := by
  intro e' he'
  obtain ⟨middle, rest, rfl⟩ := append_of_mem he'
  have hz' : SessionRun ((before ++ e :: middle) ++ e' :: rest) z := by simpa using hz
  obtain ⟨x, hx, hrest⟩ := append_iff.mp hz'
  obtain ⟨y, hstep, -⟩ := cons_iff.mp hrest
  have hsealed : (wordOf x).getLsbD 5 = true :=
    (run_shows hx (mem_append_right _ (by simp))).2.2.2.1 he
  refine ⟨?_, fun number scope old new hexchanged => ?_, fun old new hexchanged => ?_⟩
  · rintro ⟨old, new, hexchanged | ⟨tag, hexchanged⟩⟩
    · obtain ⟨rfl, -, hallowed, -⟩ := step_exchanged hx hstep hexchanged
      exact sealed_iff.mpr hsealed hallowed.1
    · obtain ⟨rfl, -, hallowed, -⟩ := step_exchanged hx hstep hexchanged
      exact sealed_iff.mpr hsealed (engages_latchNext hallowed).1
  · exact (admitted_before hx hstep hexchanged e (by simp)).2.2.1 he
  · obtain ⟨rfl, -, hallowed, -⟩ := step_exchanged hx hstep hexchanged
    exact sealed_iff.mpr hsealed hallowed.2

end

/-- In every interleaving of the operations of a session: it is closed clean only if, in this order,
a call took the lock of the producers, read the word and then every obligation as discharged, sealed
that word still holding the lock, and returned the seal; the end of the Mother was verified and
observed; the end of the session was recorded; and the delivery finished. It is then closed clean
for ever. There is at most one seal; after it no emergency is accepted, nothing is admitted, no
producer registers and none is live. -/
theorem closed_clean_was_clean {events : List Event} {z : State} (hz : SessionRun events z) :
    (state (wordOf z) = .closedClean → CleanlyClosed events z ∧
      ∀ later z', Run (Step machine) z later z' → state (wordOf z') = .closedClean) ∧
    ∀ before e after, events = before ++ e :: after → Sealing e →
      (∀ e' ∈ before ++ after, ¬Sealing e') ∧
      (∀ e' ∈ after, ¬Emergency e' ∧
        (∀ number scope old new, ¬Exchanged (.admission number scope) old new e') ∧
        ∀ old new, ¬Exchanged .register old new e') ∧
      ∀ slot ∈ z.now.shared.producers.slots, slot.live = false := by
  refine ⟨fun hstate => ⟨run_cleanlyClosed hz hstate, fun later z' hlater => ?_⟩, ?_⟩
  · rw [run_closed hz hstate hlater]
    exact hstate
  · rintro before e after rfl he
    refine ⟨sealing_unique hz he, after_sealing hz he, (run_closeInv hz).idle ?_⟩
    exact (run_shows hz (by simp)).2.2.2.1 he

/-- An answer to an action that a closing comes to. No deadline passes, and every other component
answers that it has nothing left to do. -/
def answer? (t : Nat) (s : Core) : (a : Action) → Option { r : Answer a // allows t s a r }
  | .load => some ⟨s.word, rfl⟩
  | .exchange _ old _ => if h : s.word = old then some ⟨.ok (), h⟩ else none
  | .ask (.scopeOver _) | .ask .deadlinePassed => some ⟨false, trivial⟩
  | .ask _ => some ⟨true, trivial⟩
  | .takeSequence sequence => some ⟨decide (s.sequence < sequence), rfl⟩
  | .initClose identity => some ⟨s.close.getD identity, rfl⟩
  | .getClose => some ⟨s.close, rfl⟩
  | .newScope _ => some ⟨s.scopes.length, rfl⟩
  | .lock => if h : s.holder = none then some ⟨!s.poisoned, h, rfl⟩ else none
  | .unlock | .writeProducers _ => if h : s.holder = some t then some ⟨(), h⟩ else none
  | .readProducers => if h : s.holder = some t then some ⟨s.producers, h, rfl⟩ else none
  | .takeStop => some ⟨if s.stops.next < capacity then some s.stops.next else none, rfl⟩
  | .loadOverflowed => some ⟨s.stops.overflowed, rfl⟩
  | .loadNext => some ⟨s.stops.next, rfl⟩
  | .loadGeneration index => some ⟨(s.stops.slots index).generation, rfl⟩
  | .loadPhase index => some ⟨(s.stops.slots index).phase, rfl⟩
  | .exchangePhase index old _ => some ⟨decide ((s.stops.slots index).phase = old), rfl⟩
  | .setReceipt index _ => some ⟨(s.stops.slots index).receipt.isNone, rfl⟩
  | .getReceipt index => some ⟨(s.stops.slots index).receipt, rfl⟩
  | .takeWorker => some ⟨decide (s.stops.active < 4), rfl⟩
  | .loadActive => some ⟨s.stops.active, rfl⟩
  | .nativeStop => some ⟨.gives ⟨true, .recorded 0, 0, 0⟩, trivial⟩
  | .stopSnapshot => some ⟨(true, true), trivial⟩
  | .closeAuthority => some ⟨.gives (), trivial⟩
  | .loadAuthorityClosed => some ⟨s.authorityClosed, rfl⟩
  | .resources => some ⟨.gives ⟨0, 0⟩, trivial⟩
  | .inventory | .actions => some ⟨.gives [], trivial⟩
  | .haltRecords => some ⟨.gives ⟨0, 0, 0, 0⟩, trivial⟩
  | .health => some ⟨.gives ⟨false, 0, false, 0, 0⟩, trivial⟩
  | .history => some ⟨.gives ⟨1, 0, false⟩, trivial⟩
  | .historyLines => some ⟨.gives [[]], trivial⟩
  | .getHistory =>
    match h : s.finals.map Finals.history with
    | none => none
    | some history => some ⟨some history, h⟩
  | .loadFinal field => some ⟨s.finals.map fun f : Finals => f.status field, rfl⟩
  | .exchangeFinal field old _ =>
    some ⟨s.finals.map fun f : Finals => decide (f.status field = old), rfl⟩
  | .setHistory .. | .verifyEnd .. => some ⟨true, trivial⟩
  | .closeSession => some ⟨.recorded 0, trivial⟩
  | .storeGeneration .. | .storePhase .. | .dropWorker | .storeAuthorityClosed | .initFinals
  | .storeFinal .. => some ⟨(), trivial⟩
  | _ => none

/-- When a call of a closing may begin. -/
def begin? (s : Core) (c : Call) : Option { s' : Core // begins s c s' } :=
  match c with
  | ⟨.settleCloseAuthority request, _⟩ | ⟨.sealClose request, _⟩ =>
    if h : request ∈ s.requests then some ⟨s, h, rfl⟩ else none
  | ⟨.beginMotherEnd, _⟩ | ⟨.observeMotherEnd, _⟩ | ⟨.closePrimary, _⟩ =>
    if h : s.closeSeal = true then some ⟨s, h, rfl⟩ else none
  | ⟨.finishDelivery, _⟩ =>
    if h : s.closeSeal = true then some ⟨{ s with closeSeal := false }, h, rfl⟩ else none
  | ⟨.emergency, _⟩ | ⟨.accept .., _⟩ | ⟨.recordStop _, _⟩ => some ⟨s, rfl⟩
  | _ => none

/-- A session driven call by call. -/
def driver : Driver machine where
  begin? := begin?
  perform? t s a := (answer? t s a).map fun r => ⟨(r.1, effect t s a r.1), r.2, rfl⟩
  deliver? s _
    | .nothing => some ⟨s, rfl⟩
    | .request request => some ⟨{ s with requests := request :: s.requests }, rfl⟩
    | .producer producer => some ⟨{ s with handles := producer :: s.handles }, rfl⟩
    | .closeSeal => some ⟨{ s with closeSeal := true }, rfl⟩

/-- The request to quit after one emergency. -/
def quitRequest : SessionRequest :=
  { kind := .quit, sequence := 1, snapshot := emergencyNext 0, target := 0, close := some 1
    scope := 1 }

/-- A session with an emergency, whose stop is recorded, that is closed. -/
def closeCalls : List Call :=
  [⟨.emergency, 1⟩, ⟨.recordStop ⟨1, 0⟩, 1⟩, ⟨.accept .quit 1, 1⟩,
    ⟨.settleCloseAuthority quitRequest, 1⟩, ⟨.sealClose quitRequest, 1⟩, ⟨.beginMotherEnd, 1⟩,
    ⟨.observeMotherEnd, 1⟩, ⟨.closePrimary, 1⟩, ⟨.finishDelivery, 1⟩]

/-- It is closed clean. -/
theorem closed_clean_after_emergency : ∃ events z, SessionRun events z ∧
    state (wordOf z) = .closedClean ∧ CleanlyClosed events z := by
  have hcalls : (driver.calls 0 {} closeCalls).map (fun s => state s.word) =
      some .closedClean := by decide
  obtain ⟨s, hs, hstate⟩ := Option.map_eq_some_iff.mp hcalls
  obtain ⟨events, z, hrun, rfl⟩ := Driver.calls_reach (x := (State.initial ({} : Core) : State)) hs
  exact ⟨events, z, hrun, hstate, ((closed_clean_was_clean hrun).1 hstate).1⟩

end NexusOs.HostSession
