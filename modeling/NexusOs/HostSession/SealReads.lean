import NexusOs.HostSession.Producers

/-!
# What a seal reads

`seal_close` reads one obligation after another under the lock of the producers. What it has read
stays true while it holds the lock, or until the word changes, which its exchange would find.
`holds_sealLocked` collects all of it for the exchange, and `holds_sealClose` says that who is
handed the seal has set it.
-/

namespace NexusOs.HostSession

open Utf8 Evidence Threads Transition Tickets History List

section

variable {t rounds : Nat} {x y z : Moment} (observed : List StopPhase) {e : Event}

/-- Since `z`, an event happened. -/
def Saw (z : Moment) (e : Event) (x : Moment) : Prop :=
  ∃ more, x.events = z.events ++ more ∧ e ∈ more

theorem Saw.calm (h : Saw z e x) (hxy : Calm t x y) : Saw z e y := by
  obtain ⟨more, hx, he⟩ := h
  obtain ⟨more', hy, -⟩ := hxy.events
  exact ⟨more ++ more', by rw [hy, hx, append_assoc], mem_append_left _ he⟩

theorem Saw.now {shared : Core} (h : Calm t z x) : Saw z e (x.after shared e) := by
  obtain ⟨more, hx, -⟩ := h.events
  exact ⟨more ++ [e], by rw [Moment.after, hx, append_assoc], by simp⟩

/-- Since `z`, the receipt of a stop was read as recorded, and it still is. -/
def Receipted (t : Nat) (z : Moment) (i : Nat) (x : Moment) : Prop :=
  ∃ receipt : StopReceipt, receipt.recorded = true ∧
    Saw z (.act t (.getReceipt i) (some receipt)) x ∧
    (x.shared.stops.slots i).receipt = some receipt

theorem Receipted.calm {i : Nat} (h : Receipted t z i x) (hxy : Calm t x y) :
    Receipted t z i y := by
  obtain ⟨receipt, hrecorded, hsaw, hslot⟩ := h
  exact ⟨receipt, hrecorded, hsaw.calm hxy, hxy.later.receipts hslot⟩

/-- An observation of a stop that is recorded. -/
def StopPhase.isRecorded : StopPhase → Bool
  | .finished receipt => receipt.recorded
  | _ => false

theorem recorded_count (o : StopObligations) (observed : StopPhase) :
    (o.count observed).recorded = o.recorded + (observed.isRecorded).toNat := by
  cases observed with
  | finished receipt =>
    rw [StopObligations.count, StopPhase.isRecorded]
    split
    · rename_i hrecorded
      rw [hrecorded]
      rfl
    · rename_i hrecorded
      rw [Bool.eq_false_iff.mpr hrecorded]
      split
      · rfl
      · split <;> rfl
  | _ => rfl

theorem recorded_foldl (o : StopObligations) :
    (observed.foldl StopObligations.count o).recorded =
      o.recorded + observed.countP StopPhase.isRecorded := by
  induction observed generalizing o with
  | nil => rfl
  | cons first rest ih =>
    rw [foldl_cons, ih, recorded_count, countP_cons]
    cases first.isRecorded with
    | false => simp
    | true =>
      simp only [Bool.toNat_true, if_true]
      omega

theorem overflowed_foldl (o : StopObligations) :
    (observed.foldl StopObligations.count o).overflowed = o.overflowed := by
  induction observed generalizing o with
  | nil => rfl
  | cons first rest ih =>
    rw [foldl_cons, ih]
    cases first with
    | finished receipt =>
      rw [StopObligations.count]
      split
      · rfl
      · split
        · rfl
        · split <;> rfl
    | _ => rfl

/-- An observed slot: a recorded one was read so. -/
theorem holds_observeSlot (index : Nat) (phase : Phase) (hz : Calm t z x) :
    Closes t (observeSlot index phase) (fun result y => Calm t x y ∧
      ∀ observed, result = .ok observed → observed.isRecorded = true → Receipted t z index y)
      x := by
  have hplain : ∀ {seen : StopPhase}, seen.isRecorded = false → Calm t x x ∧
      ∀ observed, (.ok seen : Except SessionError StopPhase) = .ok observed →
        observed.isRecorded = true → Receipted t z index x := by
    refine fun h => ⟨.refl x, ?_⟩
    rintro _ ⟨⟩ hrecorded
    rw [h] at hrecorded
    cases hrecorded
  cases phase with
  | finished =>
    refine .bind (holds_read ⟨trivial, rfl⟩ fun y receipt hy _ hallows hcalm => ?_)
    cases receipt with
    | none => exact .pure ⟨hcalm, nofun⟩
    | some receipt =>
      refine .pure ⟨hcalm, ?_⟩
      rintro _ ⟨⟩ hrecorded
      exact ⟨receipt, hrecorded, .now (hz.trans hy), hallows.symm⟩
  | pending | inFlight | failedWorker | empty | uncertain => exact .pure (hplain rfl)

/-- The observed slots: if as many are recorded as there are, each is. -/
theorem holds_stopEvents (index left : Nat) (hz : Calm t z x) :
    Closes t (stopEvents index left) (fun result y => Calm t x y ∧
      ∀ observed, result = .ok observed → observed.countP StopPhase.isRecorded ≤ left ∧
        (observed.countP StopPhase.isRecorded = left →
          ∀ i, index ≤ i → i < index + left → Receipted t z i y)) x := by
  induction left generalizing index x with
  | zero =>
    refine .pure ⟨.refl x, ?_⟩
    rintro _ ⟨⟩
    exact ⟨Nat.le_refl 0, fun _ i hi hi' => by omega⟩
  | succ left ih =>
    refine holds_after (tame_act trivial rfl) fun phase y hy => ?_
    split
    · refine (ih (index + 1) (hz.trans hy)).mono fun result w hw => ?_
      refine ⟨hy.trans hw.1, fun observed hresult => ?_⟩
      have hle := (hw.2 observed hresult).1
      exact ⟨by omega, fun heq => by omega⟩
    · refine .bind ((holds_observeSlot index phase (hz.trans hy)).mono fun result w hw => ?_)
      have hyw := hy.trans hw.1
      cases result with
      | error error => exact .pure ⟨hyw, nofun⟩
      | ok observed =>
        refine holds_after (tame_act trivial rfl) fun _ v hv => ?_
        have hxv := hyw.trans hv
        refine .bind ((ih (index + 1) (hz.trans hxv)).mono fun result u hu => ?_)
        have hxu := hxv.trans hu.1
        cases result with
        | error error => exact .pure ⟨hxu, nofun⟩
        | ok rest =>
          refine .pure ⟨hxu, ?_⟩
          rintro _ ⟨⟩
          obtain ⟨hle, hall⟩ := hu.2 rest rfl
          rw [countP_cons]
          refine ⟨by split <;> omega, fun heq i hi hi' => ?_⟩
          split at heq
          · rename_i hrecorded
            rcases Nat.eq_or_lt_of_le hi with rfl | hlt
            · exact ((hw.2 observed rfl hrecorded).calm hv).calm hu.1
            · exact hall (by omega) i hlt (by omega)
          · omega

/-- The obligations of the stops: if all received are recorded, each is. -/
theorem holds_stopObligations (hz : Calm t z x) :
    Closes t stopObligations (fun result y => Calm t x y ∧
      ∀ o, result = .ok o → o.received = o.recorded →
        (∀ i < o.received, Receipted t z i y) ∧ Saw z (.act t .loadNext o.received) y ∧
        Saw z (.act t .loadOverflowed o.overflowed) y ∧
        o.received ≤ y.shared.stops.next) x := by
  refine .bind (holds_read ⟨trivial, rfl⟩ fun y overflowed hy _ _ hy' => ?_)
  have hover : Saw z (.act t .loadOverflowed overflowed)
      (y.after (effect t y.shared .loadOverflowed overflowed)
        (.act t .loadOverflowed overflowed)) := .now (hz.trans hy)
  refine holds_after (tame_act trivial rfl) fun _ w hw => ?_
  have hw' := hy'.trans hw
  refine .bind (holds_read ⟨trivial, rfl⟩ fun v (slots : Nat) hv _ hslots hv' => ?_)
  have hxv := hw'.trans hv'
  refine .bind ((holds_stopEvents 0 slots (hz.trans hxv)).mono fun result u hu => ?_)
  have hxu := hxv.trans hu.1
  cases result with
  | error error => exact .pure ⟨hxu, nofun⟩
  | ok observed =>
    refine .bind (holds_read ⟨trivial, rfl⟩ fun r (reserved : Nat) hr _ hreserved hr' => ?_)
    refine .pure ⟨hxu.trans hr', ?_⟩
    rintro _ ⟨⟩ hall
    -- The slots in use are read, then all of them, then again how many there are.
    have hgrown : slots ≤ reserved := by
      have hnext := (hu.1.trans hr).later.next
      rw [show slots = v.shared.stops.next from hslots,
        show reserved = r.shared.stops.next from hreserved]
      exact hnext
    obtain ⟨hle, hrecorded⟩ := hu.2 observed rfl
    have hcount : reserved = observed.countP StopPhase.isRecorded := by
      simpa [recorded_foldl] using hall
    have hslots' : slots = reserved := by omega
    refine ⟨fun i hi => ?_, .now (hz.trans (hxu.trans hr)), ?_, Nat.le_of_eq hreserved⟩
    · have hi' : i < 0 + slots := by
        rw [Nat.zero_add, hslots']
        exact hi
      exact (hrecorded (by omega) i (Nat.zero_le i) hi').calm hr'
    · simp only [overflowed_foldl]
      exact (((hover.calm hw).calm hv').calm hu.1).calm hr'

/-! ## The seal -/

/-- What the holder of the lock knows who read a word at `z`: what it read since, and what is still
so. -/
structure Sealable (t : Nat) (z : Moment) (word : Word) (reads : List Event) (x : Moment) :
    Prop where
  calm : Calm t z x
  holder : x.shared.holder = some t
  saw : ∀ e ∈ reads, Saw z e x
  stops : ∀ i < epoch word, Receipted t z i x
  clean : StillClean word x.shared

variable {word : Word} {reads : List Event}

theorem Sealable.later (h : Sealable t z word reads x) (hxy : Calm t x y) :
    Sealable t z word reads y where
  calm := h.calm.trans hxy
  holder := (hxy.lock h.holder).1
  saw e he := (h.saw e he).calm hxy
  stops i hi := (h.stops i hi).calm hxy
  clean := by
    refine ⟨hxy.later.authority h.clean.authority, ?_, Nat.le_trans h.clean.received
      hxy.later.next, fun i hi => ?_⟩
    · rw [(hxy.lock h.holder).2.1]
      exact h.clean.producers
    · obtain ⟨receipt, hrecorded, hslot⟩ := h.clean.recorded i hi
      exact ⟨receipt, hrecorded, hxy.later.receipts hslot⟩

/-- Reading one more obligation. -/
theorem holds_sealRead {β : Type} {a : Action} {f : Answer a → P β} {post : β → Moment → Prop}
    (hfree : Free a) (h : Sealable t z word reads x)
    (hnext : ∀ r y, Sealable t z word (.act t a r :: reads) y → Closes t (f r) post y) :
    Closes t (act a >>= f) post x := by
  refine .bind (holds_read hfree fun y r hy _ _ hy' => hnext r _ ?_)
  have hlater := h.later hy'
  refine { hlater with saw := fun e he => ?_ }
  rcases mem_cons.mp he with rfl | he
  · exact .now (h.calm.trans hy)
  · exact hlater.saw e he

/-- What comes of a seal: the one that sealed holds a ticket for it. -/
def Sealed (t : Nat) (finding : Finding) (x : Moment) : Prop :=
  finding = .sealed → Holding Event.thread handsSeal seals t x.events

theorem sealed_refused (error : SessionError) : Sealed t (.refused error) x := nofun

theorem holds_failing (error : SessionError) : Closes t (failing error rounds) (Sealed t) x :=
  holds_after tame_fail fun _ _ _ => .pure nofun

/-- Reading one more obligation, of a component that may refuse to answer. -/
theorem holds_sealReply {a : Action} {α : Type} {refusal : P Finding} {next : α → P Finding}
    (hanswer : Answer a = Reply α) (hfree : Free a) (h : Sealable t z word reads x)
    (hrefusal : ∀ {y}, Closes t refusal (Sealed t) y) (hnext : ∀ value y,
      Sealable t z word (.act t a (cast hanswer.symm (.gives value)) :: reads) y →
      Closes t (next value) (Sealed t) y) :
    Closes t (act a >>= fun r => onReply (cast hanswer r) refusal next) (Sealed t) x := by
  refine holds_sealRead hfree h fun r y hy => ?_
  obtain ⟨reply, rfl⟩ : ∃ reply, r = cast hanswer.symm reply := ⟨cast hanswer r, by simp⟩
  rw [cast_cast, cast_eq]
  cases reply with
  | gives value => exact hnext value y hy
  | refuses => exact hrefusal
  | panics => exact .pure nofun

/-- The call took the lock and then read the word. -/
def LockedAt (t : Nat) (word : Word) (z : Moment) : Prop :=
  ∃ before mid, z.events = before ++ .act t .lock true :: (mid ++ [.act t .load word]) ∧
    ∀ e ∈ mid, e.thread = t → mild e = true

/-- The last step of a seal: all is read, and the exchange may be tried. -/
theorem holds_sealWord (hword : word &&& (Mask.failed ||| Mask.sealed) = 0)
    (hz : LockedAt t word z) (hclean : ∀ {since}, (∀ e ∈ reads, e ∈ since) →
      (∀ i < epoch word, ∃ receipt : StopReceipt, receipt.recorded = true ∧
        .act t (.getReceipt i) (some receipt) ∈ since) → ReadClean t word since)
    (h : Sealable t z word reads x) (lines : List Text) :
    Closes t (sealWord word lines rounds) (Sealed t) x := by
  rw [sealWord]
  split
  · exact .pure nofun
  refine holds_after (tame_act trivial rfl) fun _ y hy => ?_
  refine holds_after (tame_act trivial rfl) fun set y' hy' => ?_
  refine .guard nofun fun _ => ?_
  refine holds_after (tame_act trivial rfl) fun passed w hw => ?_
  refine .guard nofun fun _ => ?_
  have hsealable := h.later (hy.trans (hy'.trans hw))
  refine .bind (holds_compare (fun v hv _ _ => ⟨⟨hword, rfl⟩, ?_⟩) ?_ ?_)
  · have hv := hsealable.later hv
    obtain ⟨before, mid, hlocked, hmid⟩ := hz
    obtain ⟨since, hevents, hsince⟩ := hv.calm.events
    have hmem : ∀ {e}, Saw z e v → e ∈ since := by
      rintro e ⟨more, hmore, he⟩
      rwa [append_cancel_left (hevents.symm.trans hmore)]
    refine ⟨before, mid, since, by rw [hevents, hlocked]; simp, fun e he ht => ?_,
      hclean (fun e he => hmem (hv.saw e he)) fun i hi => ?_, hv.holder, hv.clean⟩
    · rcases mem_append.mp he with he | he
      · exact hmid e he ht
      · rcases mem_cons.mp he with rfl | he
        · rfl
        · exact hsince e he ht
    · obtain ⟨receipt, hrecorded, hsaw, -⟩ := hv.stops i hi
      exact ⟨receipt, hrecorded, hmem hsaw⟩
  · exact fun v _ hinv _ => .pure fun _ => hinv.sealPaid.holding rfl rfl rfl
  · exact fun _ _ _ => .pure nofun

/-- What the first part of a seal has read. -/
def firstReads (t : Nat) (word : Word) (producers : Producers) : List Event :=
  [.act t .loadActive 0, .act t .loadOverflowed false, .act t .loadNext (epoch word),
    .act t (.ask .modelQuiescent) true, .act t .readProducers producers,
    .act t .loadAuthorityClosed true]

theorem holds_sealObligations {producers : Producers}
    (hword : word &&& (Mask.failed ||| Mask.sealed) = 0) (hz : LockedAt t word z)
    (hidle : ∀ slot ∈ producers.slots, slot.live = false ∧ slot.lost = false)
    (h : Sealable t z word (firstReads t word producers) x) :
    Closes t (sealObligations word rounds) (Sealed t) x := by
  refine holds_sealReply rfl ⟨trivial, rfl⟩ h (holds_failing _) fun resources y h => ?_
  refine .guard nofun fun hnone => ?_
  rw [not_or, not_not, not_not] at hnone
  refine holds_sealReply rfl ⟨trivial, rfl⟩ h (holds_failing _) fun entries y h => ?_
  refine .guard nofun fun hentries => ?_
  refine holds_sealReply rfl ⟨trivial, rfl⟩ h (.pure nofun) fun acknowledged y h => ?_
  refine .guard nofun fun hacknowledged => ?_
  refine holds_sealReply rfl ⟨trivial, rfl⟩ h (.pure nofun) fun halt y h => ?_
  refine .guard nofun fun hhalt => ?_
  refine holds_sealReply rfl ⟨trivial, rfl⟩ h (.pure nofun) fun health y h => ?_
  refine .guard nofun fun hhealth => ?_
  refine holds_sealReply rfl ⟨trivial, rfl⟩ h (.pure nofun) fun report y h => ?_
  refine .guard nofun fun hreport => ?_
  refine holds_sealReply rfl ⟨trivial, rfl⟩ h (.pure nofun) fun lines y h => ?_
  refine holds_sealWord hword hz (fun {since} hsince hstops => ?_) h lines
  obtain ⟨unresolved, uncertain⟩ := resources
  obtain ⟨pending, owed, uncertain', lost⟩ := halt
  obtain ⟨latched, owed', recoveryRequired, unsettled, uncleanSessions⟩ := health
  obtain ⟨rfl, rfl⟩ := hnone
  simp only [not_or, not_not, Bool.not_eq_true] at hhalt hhealth hreport
  obtain ⟨rfl, rfl, rfl, rfl⟩ := hhalt
  obtain ⟨rfl, rfl, rfl, rfl, rfl⟩ := hhealth
  have hmem : ∀ e ∈ firstReads t word producers, e ∈ since := fun e he =>
    hsince e (by simp only [mem_cons]; tauto)
  simp only [firstReads, forall_mem_cons, not_mem_nil, false_imp_iff, implies_true,
    and_true] at hmem
  obtain ⟨hactive, hoverflowed, hreceived, hmodel, hproducers, hauthority⟩ := hmem
  exact
    { authority := hauthority
      producers := ⟨producers, hproducers, hidle⟩
      model := hmodel
      overflowed := hoverflowed
      received := hreceived
      recorded := hstops
      active := hactive
      resources := hsince _ (by simp)
      inventory := ⟨entries, hsince _ (by simp), by simpa [and_assoc] using hentries⟩
      actions := ⟨acknowledged, hsince _ (by simp), by simpa using hacknowledged⟩
      halt := hsince _ (by simp)
      health := hsince _ (by simp)
      history := ⟨report, hsince _ (by simp), hreport⟩ }

/-- Under the lock: whoever seals has read that all is clean. -/
theorem holds_sealLocked (hholder : x.shared.holder = some t)
    (hx : ∃ before, x.events = before ++ [.act t .lock true]) :
    Closes t (sealLocked rounds) (Sealed t) x := by
  obtain ⟨before, hbefore⟩ := hx
  refine .bind (holds_read ⟨trivial, rfl⟩ fun y word hy _ _ hy' => ?_)
  refine .guard (sealed_refused _) fun hword => ?_
  have hlocked : LockedAt t word (y.after (effect t y.shared .load word) (.act t .load word)) := by
    obtain ⟨mid, hmid, hmild⟩ := hy.events
    exact ⟨before, mid, by simp [Moment.after, hmid, hbefore], hmild⟩
  generalize y.after (effect t y.shared .load word) (.act t .load word) = z at hy' hlocked ⊢
  have hz := (hy'.lock hholder).1
  refine .bind (holds_read ⟨trivial, rfl⟩ fun y closed hy _ hclosed hy' => ?_)
  refine .guard (sealed_refused _) fun hauthority => ?_
  obtain rfl : closed = true := by simpa using hauthority
  have hsaw : Saw z (.act t .loadAuthorityClosed true)
      (y.after (effect t y.shared .loadAuthorityClosed true)
        (.act t .loadAuthorityClosed true)) := .now hy
  have hclosed' : (y.after (effect t y.shared .loadAuthorityClosed true)
      (.act t .loadAuthorityClosed true)).shared.authorityClosed = true := hclosed.symm
  refine .bind (holds_read ⟨trivial, rfl⟩ fun w producers hw _ hproducers hw' => ?_)
  refine .guard (sealed_refused _) fun hidle => ?_
  have hidle : ∀ slot ∈ producers.slots, slot.live = false ∧ slot.lost = false := by
    simpa using hidle
  obtain rfl : producers = w.shared.producers := hproducers.2
  -- No stop is looked at yet, so that what is known of stops is of none of them.
  have hfirst : Sealable t z 0
      [.act t .readProducers w.shared.producers, .act t .loadAuthorityClosed true]
      (w.after (effect t w.shared .readProducers w.shared.producers)
        (.act t .readProducers w.shared.producers)) := by
    refine ⟨hy'.trans hw', ((hy'.trans hw').lock hz).1, fun e he => ?_, fun i hi => ?_, ?_⟩
    · simp only [mem_cons, not_mem_nil, or_false] at he
      rcases he with rfl | rfl
      · exact .now (hy'.trans hw)
      · exact hsaw.calm hw'
    · exact absurd hi (Nat.not_lt_zero i)
    · exact ⟨hw.later.authority hclosed', hidle, Nat.zero_le _,
        fun i hi => absurd hi (Nat.not_lt_zero i)⟩
  refine holds_sealRead ⟨trivial, rfl⟩ hfirst fun quiescent v hv => ?_
  refine .guard (sealed_refused _) fun hquiescent => ?_
  obtain rfl : quiescent = true := by simpa using hquiescent
  refine .bind ((holds_stopObligations hv.calm).mono fun result u hu => ?_)
  cases result with
  | error error => exact .pure (sealed_refused _)
  | ok stop =>
    refine .guard (sealed_refused _) fun hstop => ?_
    simp only [not_or, not_not, Bool.not_eq_true] at hstop
    obtain ⟨hrecorded, hreceived, hoverflowed⟩ := hstop
    obtain ⟨hreceipts, hnext, hover, hle⟩ := hu.2 stop rfl hrecorded
    have hlater := hv.later hu.1
    rw [hreceived] at hreceipts hnext hle
    rw [hoverflowed] at hover
    have hsecond : Sealable t z word [.act t .loadOverflowed false, .act t .loadNext (epoch word),
        .act t (.ask .modelQuiescent) true, .act t .readProducers w.shared.producers,
        .act t .loadAuthorityClosed true] u := by
      refine ⟨hlater.calm, hlater.holder, ?_, hreceipts, hlater.clean.authority,
        hlater.clean.producers, hle, fun i hi => ?_⟩
      · simpa [hover, hnext] using hlater.saw
      · obtain ⟨receipt, hreceipt, -, hslot⟩ := hreceipts i hi
        exact ⟨receipt, hreceipt, hslot⟩
    refine holds_sealRead ⟨trivial, rfl⟩ hsecond fun active r hr => ?_
    refine .guard (sealed_refused _) fun hactive => ?_
    obtain rfl : active = 0 := by simpa using hactive
    exact holds_sealObligations (not_not.mp hword) hlocked hidle hr

theorem holds_sealClose (request : SessionRequest) :
    Closes t (sealClose request rounds) (fun result x =>
      result = some (.ok ()) → Holding Event.thread handsSeal seals t x.events) x := by
  refine holds_after (tame_closeRequest request) fun ok y _ => ?_
  refine .guard nofun fun _ => ?_
  refine holds_after (tame_act trivial rfl) fun ready z _ => ?_
  refine .guard nofun fun _ => ?_
  refine .bind (holds_act (fun _ _ _ _ _ => trivial) fun w locked _ _ _ => ?_)
  cases locked with
  | false => exact .pure nofun
  | true =>
    refine .bind ((holds_sealLocked rfl ⟨w.events, rfl⟩).mono fun finding v hv => ?_)
    cases finding with
    | sealed =>
      refine .bind (holds_act (fun _ _ _ _ _ => trivial) fun u _ hu _ _ => ?_)
      refine .pure fun _ => ?_
      -- Giving the lock back does not hand the seal over.
      refine .append (hu.holding (fun e he => (unused_of_mild he).2.2) (hv rfl)) ?_
      intro e he _
      rw [mem_singleton.mp he]
      rfl
    | refused => exact .bind (holds_unlock fun _ => .pure nofun)
    | panicked => exact .bind (holds_act (fun _ _ _ _ _ => trivial) fun _ _ _ _ _ => .pure nofun)

end

end NexusOs.HostSession
