import NexusOs.HostSession.Careful
import NexusOs.Lib.History
import NexusOs.Lib.Tickets

/-!
# The contract of a close

What the operations of a host session owe each other so that a session closed clean was clean
(`closeContract`). The lock of the producers keeps their slots and the seal bit for its holder; a
stop is taken for one emergency, the seal is handed over for one exchange and finished once; and the
steps after the seal come in their order.
-/

namespace NexusOs.HostSession

open Utf8 Evidence Threads Transition Tickets History List

/-! ## Kinds of events -/

/-- An event that exchanged the word. -/
def Exchanged (why : Change) (old new : Word) (e : Event) : Prop :=
  ∃ t, e = .act t (.exchange why old new) (.ok ())

def Sealing (e : Event) : Prop := ∃ old new, Exchanged .sealing old new e

/-- A slot of the stops was taken. -/
def takesStop : Event → Bool
  | .act _ .takeStop (some _) => true
  | _ => false

/-- `SessionIngress::emergency` counted an emergency. -/
def countsEmergency : Event → Bool
  | .act _ (.exchange .emergency _ _) (.ok _) => true
  | _ => false

/-- The word was sealed. -/
def seals : Event → Bool
  | .act _ (.exchange .sealing _ _) (.ok _) => true
  | _ => false

/-- `seal_close` returned the seal. -/
def handsSeal : Event → Bool
  | .ret _ _ .closeSeal => true
  | _ => false

/-- The seal is consumed, by its delivery or by its drop. -/
def takesSeal : Event → Bool
  | .call _ ⟨.finishDelivery, _⟩ => true
  | .call _ ⟨.dropSeal, _⟩ => true
  | _ => false

/-- `finish` exchanged the word. -/
def finishes : Event → Bool
  | .act _ (.exchange (.finish _) _ _) (.ok _) => true
  | _ => false

/-- `verify_end` found the end of the Mother's journal. -/
def MotherVerified (e : Event) : Prop := ∃ t records head, e = .act t (.verifyEnd records head) true

/-- The end of the Mother is observed. -/
def MotherRecorded (e : Event) : Prop := ∃ t, e = .act t (.storeFinal .mother .recorded) ()

/-- The evidence store recorded the end of the session. -/
def PrimaryClosed (e : Event) : Prop := ∃ t seq, e = .act t .closeSession (.recorded seq)

/-- The end of the primary record is noted. -/
def PrimaryRecorded (e : Event) : Prop := ∃ t, e = .act t (.storeFinal .primary .recorded) ()

/-- The delivery finished with success. -/
def Delivered (e : Event) : Prop := ∃ old new, Exchanged (.finish true) old new e

/-- What comes before the end of the Mother is observed. -/
def motherTurns : List (Event → Prop) := [Sealing, (handsSeal · = true), MotherVerified]

/-- What comes before the end of the primary record is noted. -/
def primaryTurns : List (Event → Prop) := motherTurns ++ [MotherRecorded, PrimaryClosed]

/-- What comes before the delivery. -/
def deliveryTurns : List (Event → Prop) := primaryTurns ++ [PrimaryRecorded]

/-- The events of a call outside the end of the session, the lock and what it guards. -/
def mild : Event → Bool
  | .act _ (.exchange ..) (.error _) => true
  | .act _ a _ => a.plain
  | _ => false

/-- What a call read before it sealed a word. -/
structure ReadClean (t : Nat) (word : Word) (reads : List Event) : Prop where
  authority : .act t .loadAuthorityClosed true ∈ reads
  producers : ∃ producers, .act t .readProducers producers ∈ reads ∧
    ∀ slot ∈ producers.slots, slot.live = false ∧ slot.lost = false
  model : .act t (.ask .modelQuiescent) true ∈ reads
  overflowed : .act t .loadOverflowed false ∈ reads
  received : .act t .loadNext (epoch word) ∈ reads
  recorded : ∀ i < epoch word, ∃ receipt : StopReceipt, receipt.recorded = true ∧
    .act t (.getReceipt i) (some receipt) ∈ reads
  active : .act t .loadActive 0 ∈ reads
  resources : .act t .resources (.gives ⟨0, 0⟩) ∈ reads
  inventory : ∃ entries, .act t .inventory (.gives entries) ∈ reads ∧
    ∀ e ∈ entries, e.discharged = true ∧ e.inFlight = false ∧ e.uncertain = false
  actions : ∃ acknowledged, .act t .actions (.gives acknowledged) ∈ reads ∧
    ∀ a ∈ acknowledged, a = true
  halt : .act t .haltRecords (.gives ⟨0, 0, 0, 0⟩) ∈ reads
  health : .act t .health (.gives ⟨false, 0, false, 0, 0⟩) ∈ reads
  history : ∃ report, .act t .history (.gives report) ∈ reads ∧ report.records ≠ 0 ∧
    report.unresolvedMissions = 0 ∧ report.sessionEndRecorded = false

/-- What is still so when a word is sealed. -/
structure StillClean (word : Word) (s : Core) : Prop where
  authority : s.authorityClosed = true
  producers : ∀ slot ∈ s.producers.slots, slot.live = false ∧ slot.lost = false
  received : epoch word ≤ s.stops.next
  recorded : ∀ i < epoch word, ∃ receipt : StopReceipt, receipt.recorded = true ∧
    (s.stops.slots i).receipt = some receipt

/-- A call took the lock, read a word and that all is clean, and holds the lock. -/
def SealReady (t : Nat) (word : Word) (x : Moment) : Prop :=
  ∃ before mid reads, x.events =
      before ++ .act t .lock true :: (mid ++ .act t .load word :: reads) ∧
    (∀ e ∈ mid ++ .act t .load word :: reads, e.thread = t → mild e = true) ∧
    ReadClean t word reads ∧ x.shared.holder = some t ∧ StillClean word x.shared

/-- The scope of the bootstrap. -/
def bootstrapScope : RequestScope := { request := 0, snapshot := 0, kind := .bootstrap }

/-- A scope was made by a call that had read its snapshot. -/
def Issued (number : Nat) (scope : RequestScope) (events : List Event) : Prop :=
  ∃ t pre mid post, events =
    pre ++ .act t .load scope.snapshot :: (mid ++ .act t (.newScope scope) number :: post)

/-- The scope of a number. -/
def Core.scope? (s : Core) (number : Nat) : Option RequestScope := (s.scopes.map Prod.fst)[number]?

theorem Issued.append {number : Nat} {scope : RequestScope} {events : List Event}
    (h : Issued number scope events) (more : List Event) :
    Issued number scope (events ++ more) := by
  obtain ⟨t, pre, mid, post, rfl⟩ := h
  exact ⟨t, pre, mid, post ++ more, by simp⟩

/-! ## The contract -/

/-- What an exchange of the word promises, beyond being one of the updates of its kind. -/
def Change.Promised (t : Nat) (x : Moment) (old : Word) : Change → Prop
  | .admission number scope => x.shared.scope? number = some scope
  | .sealing => SealReady t old x
  | .finish success => Holding Event.thread finishes takesSeal t x.events ∧
      (success = true → InTurn deliveryTurns x.events)
  | _ => True

/-- What an action promises when it is done. -/
def Promised (t : Nat) (x : Moment) : (a : Action) → Answer a → Prop
  | .exchange why old new, .ok () => why.Allowed old new ∧ why.Promised t x old
  | .newScope scope, _ => scope.kind ≠ .closeCleanup →
    ∃ pre post, x.events = pre ++ .act t .load scope.snapshot :: post
  | .takeStop, some _ => Holding Event.thread takesStop countsEmergency t x.events
  | .writeProducers producers, () =>
    x.shared.word.getLsbD 5 = true → ∀ slot ∈ producers.slots, slot.live = false
  | .storeFinal .mother .recorded, () => InTurn motherTurns x.events
  | .storeFinal .primary .recorded, () => InTurn primaryTurns x.events
  | .exchangeFinal _ _ new, _ => new ≠ .recorded
  | _, _ => True

/-- What an event promises. -/
def Promise (x : Moment) : Event → Prop
  | .act t a r => Promised t x a r
  | .ret t _ .closeSeal => Holding Event.thread handsSeal seals t x.events
  | _ => True

/-- What holds at every moment of a session. -/
structure CloseInv (x : Moment) : Prop where
  issued : ∀ {number scope}, x.shared.scope? number = some scope → scope.kind ≠ .closeCleanup →
    number = 0 ∧ scope = bootstrapScope ∨ Issued number scope x.events
  once : x.events.countP seals = (x.shared.word.getLsbD 5).toNat
  ready : x.shared.word.getLsbD 5 = true → x.shared.word.getLsbD 6 = true →
    ∃ e ∈ x.events, finishes e = true
  idle : x.shared.word.getLsbD 5 = true → ∀ slot ∈ x.shared.producers.slots, slot.live = false
  taken : x.shared.stops.next = x.events.countP takesStop
  room : x.shared.stops.next ≤ capacity
  stopPaid : Paid Event.thread takesStop countsEmergency x.events
  sealPaid : Paid Event.thread handsSeal seals x.events
  finishPaid : Paid Event.thread finishes takesSeal x.events
  handed : x.events.countP takesSeal + x.shared.closeSeal.toNat ≤ x.events.countP handsSeal
  turn : x.shared.closeSeal = true → InTurn [Sealing, (handsSeal · = true)] x.events
  mother : x.shared.finals.map (·.status .mother) = some .recorded →
    InTurn (motherTurns ++ [MotherRecorded]) x.events
  primary : x.shared.finals.map (·.status .primary) = some .recorded → InTurn deliveryTurns x.events

/-- What only grows: the stops that were taken, their receipts, and the authority's end. -/
structure Later (s s' : Core) : Prop where
  next : s.stops.next ≤ s'.stops.next
  receipts : ∀ {i receipt}, (s.stops.slots i).receipt = some receipt →
    (s'.stops.slots i).receipt = some receipt
  authority : s.authorityClosed = true → s'.authorityClosed = true

/-- From a moment to a later one, between which call `t` has only events of a kind: what the
holder of the lock may count on. -/
structure Grown (own : Event → Prop) (t : Nat) (x y : Moment) : Prop where
  events : ∃ more, y.events = x.events ++ more ∧ ∀ e ∈ more, e.thread = t → own e
  scopes : ∀ {number scope}, x.shared.scope? number = some scope →
    y.shared.scope? number = some scope
  later : Later x.shared y.shared
  lock : x.shared.holder = some t → y.shared.holder = some t ∧
    y.shared.producers = x.shared.producers ∧
    (y.shared.word.getLsbD 5 = true → x.shared.word.getLsbD 5 = true)

/-- What an event guarantees. -/
structure CloseGuar (x : Moment) (e : Event) (y : Moment) : Prop where
  events : y.events = x.events ++ [e]
  does : machine.does x.shared e y.shared
  promise : Promise x e

/-! ## What actions do -/

theorem begins_word {s s' : Core} {c : Call} (h : begins s c s') : s'.word = s.word := by
  unfold begins at h
  split at h <;> (obtain ⟨-, rfl⟩ := h; rfl)

theorem delivers_word {s s' : Core} {c : Call} {result : Result} (h : delivers s c result s') :
    s'.word = s.word := by
  unfold delivers at h
  split at h <;> (subst h; rfl)

section

variable {s s' : Core} {t u : Nat} {a : Action} {r : Answer a}

/-- Beginning a call, and returning from it, touches only what callers own. -/
theorem act_or_frame {e : Event} (h : machine.does s e s') :
    (∃ t a r, e = .act t a r ∧ machine.does s (.act t a r) s') ∨
      takesStop e = false ∧
        ∃ handles requests closeSeal, s' = { s with handles, requests, closeSeal } := by
  cases e with
  | call t c =>
    refine .inr ⟨rfl, ?_⟩
    change begins s c s' at h
    unfold begins at h
    split at h <;> (obtain ⟨-, rfl⟩ := h; exact ⟨_, _, _, rfl⟩)
  | ret t c result =>
    refine .inr ⟨rfl, ?_⟩
    change delivers s c result s' at h
    unfold delivers at h
    split at h <;> (subst h; exact ⟨_, _, _, rfl⟩)
  | act t a r => exact .inl ⟨t, a, r, rfl, h⟩

theorem Later.refl (s : Core) : Later s s := ⟨Nat.le_refl _, fun h => h, fun h => h⟩

theorem Later.trans {s'' : Core} (h : Later s s') (h' : Later s' s'') : Later s s'' :=
  ⟨Nat.le_trans h.next h'.next, fun hi => h'.receipts (h.receipts hi),
    fun hs => h'.authority (h.authority hs)⟩

/-- A change of a slot that keeps its receipt. -/
theorem later_modify (s : Core) (index : Nat) {change : StopSlot → StopSlot}
    (h : ∀ slot receipt, slot = s.stops.slots index → slot.receipt = some receipt →
      (change slot).receipt = some receipt) :
    Later s { s with stops := s.stops.modify index change } where
  next := Nat.le_refl _
  receipts {i receipt} hi := by
    simp only [Stops.modify]
    split
    · rename_i heq
      exact h _ _ (heq ▸ rfl) hi
    · exact hi
  authority hs := hs

theorem later_effect (h : allows t s a r) : Later s (effect t s a r) := by
  cases a with
  | takeStop =>
    cases r with
    | none => exact .refl s
    | some => exact ⟨Nat.le_succ _, fun h => h, fun h => h⟩
  | storeGeneration index generation | storePhase index phase =>
    exact later_modify s index fun _ _ _ h => h
  | exchangePhase index old new =>
    cases r with
    | false => exact .refl s
    | true => exact later_modify s index fun _ _ _ h => h
  | setReceipt index receipt =>
    cases r with
    | false => exact .refl s
    | true =>
      refine later_modify s index fun slot receipt hslot hreceipt => ?_
      have hnone : true = (s.stops.slots index).receipt.isNone := h
      rw [← hslot, hreceipt] at hnone
      cases hnone
  | storeAuthorityClosed => exact ⟨Nat.le_refl _, fun h => h, fun _ => rfl⟩
  | _ => first | exact .refl s | (cases r <;> exact .refl s) | exact ⟨.le_refl _, id, id⟩ |
      (cases r <;> exact ⟨Nat.le_refl _, id, id⟩)

/-- The lock stays with its holder while others act, and while the holder has mild events. -/
theorem lock_effect (h : allows u s a r) (hholder : s.holder = some t)
    (hmild : u = t → mild (.act u a r) = true) :
    (effect u s a r).holder = some t ∧ (effect u s a r).producers = s.producers := by
  have hother : s.holder = some u → mild (.act u a r) = true := fun hu =>
    hmild (Option.some.inj (hu.symm.trans hholder))
  cases a with
  | lock => exact nomatch h.1.symm.trans hholder
  | tryLock =>
    cases r with
    | false => exact ⟨hholder, rfl⟩
    | true =>
      have hfree : true = decide (s.holder = none ∧ s.poisoned = false) := h
      simp [hholder] at hfree
  | unlock | poison | writeProducers producers => exact nomatch hother h
  | _ => first | exact ⟨hholder, rfl⟩ | (cases r <;> exact ⟨hholder, rfl⟩)

/-- A final obligation is recorded by a store only. -/
theorem final_effect {field : FinalField}
    (h : (effect t s a r).finals.map (·.status field) = some .recorded) :
    s.finals.map (·.status field) = some .recorded ∨ a = .storeFinal field .recorded ∨
      ∃ old, a = .exchangeFinal field old .recorded := by
  cases a with
  | initFinals =>
    cases hfinals : s.finals with
    | none => simp [effect, hfinals] at h
    | some finals => simpa [effect, hfinals] using h
  | setHistory records head =>
    cases r with
    | false => exact .inl h
    | true => simpa [effect] using h
  | storeFinal stored status =>
    cases hfinals : s.finals with
    | none => simp [effect, hfinals] at h
    | some finals =>
      simp only [effect, hfinals, Finals.store, Option.map_some, Option.some.injEq] at h ⊢
      split at h
      · rename_i hfield
        subst h hfield
        exact .inr (.inl rfl)
      · exact .inl h
  | exchangeFinal changed old new =>
    cases hfinals : s.finals with
    | none => simp [effect, hfinals] at h
    | some finals =>
      simp only [effect, hfinals, Finals.exchange, Option.map_some, Option.some.injEq] at h ⊢
      split at h
      · simp only [Finals.store] at h
        split at h
        · rename_i hfield
          subst h hfield
          exact .inr (.inr ⟨old, rfl⟩)
        · exact .inl h
      · exact .inl h
  | _ => first | exact .inl h | (cases r <;> exact .inl h)

/-- The count of the stops grows by what is taken. -/
theorem next_effect (h : allows t s a r) (hroom : s.stops.next ≤ capacity) :
    (effect t s a r).stops.next = s.stops.next + (takesStop (.act t a r)).toNat ∧
      (effect t s a r).stops.next ≤ capacity := by
  cases a with
  | takeStop =>
    cases r with
    | none => exact ⟨rfl, hroom⟩
    | some index =>
      have hlt : s.stops.next < capacity := by
        by_contra hfull
        have hindex : some index =
            if s.stops.next < capacity then some s.stops.next else none := h
        rw [if_neg hfull] at hindex
        cases hindex
      exact ⟨rfl, hlt⟩
  | _ => first | exact ⟨rfl, hroom⟩ | (cases r <;> exact ⟨rfl, hroom⟩)

end

/-! ## The seal bit -/

/-- What neither seals nor finishes leaves the seal, and what it says. -/
theorem Change.Allowed.seal_bits {why : Change} {old new : Word} (h : why.Allowed old new)
    (hplain : why.plain = true) :
    new.getLsbD 5 = old.getLsbD 5 ∧ (old.getLsbD 5 = true → new.getLsbD 6 = old.getLsbD 6) := by
  have hengages : ∀ {tag urgent}, Engages tag urgent old new →
      new.getLsbD 5 = old.getLsbD 5 ∧ (old.getLsbD 5 = true → new.getLsbD 6 = old.getLsbD 6) :=
    fun h => ⟨h.bit (by decide) (by decide) (by decide),
      fun _ => h.bit (by decide) (by decide) (by decide)⟩
  cases why with
  | emergency => exact hengages (h.2.2 ▸ engages_emergencyNext h.2.1)
  | latch tag urgent => exact hengages (engages_latchNext h).2
  | fail =>
    rw [h.2.2]
    exact ⟨getLsbD_or_twoPow (k := 4) (by decide), fun _ => getLsbD_or_twoPow (k := 4) (by decide)⟩
  | close =>
    rw [h.2.2]
    exact ⟨getLsbD_or_twoPow (k := 3) (by decide), fun _ => getLsbD_or_twoPow (k := 3) (by decide)⟩
  | ready =>
    rw [h.1, h.2]
    exact ⟨by decide, by decide⟩
  | admission | register => exact h.1 ▸ ⟨rfl, fun _ => rfl⟩
  | sealing | finish => cases hplain

section

variable {own own' : Event → Prop} {t : Nat} {x y z : Moment} {e : Event}

/-- Whoever may finish has a session that is sealed. -/
theorem CloseInv.sealed_of_holding (h : CloseInv x)
    (hholding : Holding Event.thread finishes takesSeal t x.events) :
    x.shared.word.getLsbD 5 = true := by
  obtain ⟨e, he, htakes⟩ := hholding.given
  have htaken : 0 < x.events.countP takesSeal := countP_pos_iff.mpr ⟨e, he, htakes⟩
  have hhanded := h.handed
  have hseals := h.sealPaid.countP_le
  have honce := h.once
  cases hbit : x.shared.word.getLsbD 5 with
  | true => rfl
  | false =>
    rw [hbit, Bool.toNat_false] at honce
    omega

/-- What an event does to the seal. -/
inductive SealBits (e : Event) (w w' : Word) : Prop where
  | sets : seals e = true → w.getLsbD 5 = false → w'.getLsbD 5 = true → w'.getLsbD 6 = false →
      SealBits e w w'
  | ends : seals e = false → finishes e = true → w.getLsbD 5 = true → w'.getLsbD 5 = true →
      SealBits e w w'
  | leaves : seals e = false → finishes e = false → w'.getLsbD 5 = w.getLsbD 5 →
      (w.getLsbD 5 = true → w'.getLsbD 6 = w.getLsbD 6) → SealBits e w w'

theorem SealBits.of_eq {w w' : Word} (hseals : seals e = false) (hfinishes : finishes e = false)
    (h : w' = w) : SealBits e w w' :=
  .leaves hseals hfinishes (by rw [h]) fun _ => by rw [h]

/-- What an event does to the seal that a caller owns. -/
inductive SealHeld (e : Event) (held held' : Bool) : Prop where
  | takes : takesSeal e = true → handsSeal e = false → held = true → held' = false →
      SealHeld e held held'
  | hands : takesSeal e = false → handsSeal e = true → held' = true → SealHeld e held held'
  | leaves : takesSeal e = false → handsSeal e = false → held' = held → SealHeld e held held'

theorem seal_held {s s' : Core} (h : machine.does s e s') :
    SealHeld e s.closeSeal s'.closeSeal := by
  cases e with
  | call t c =>
    obtain ⟨op, rounds⟩ := c
    cases op with
    | finishDelivery | dropSeal => exact .takes rfl rfl h.1 (by rw [h.2])
    | admission | joined | dropProducer | settleCloseAuthority | sealClose | beginMotherEnd |
        observeMotherEnd | closePrimary => exact .leaves rfl rfl (by rw [h.2])
    | _ => exact .leaves rfl rfl (congrArg Core.closeSeal h)
  | ret t c result =>
    cases result with
    | closeSeal => exact .hands rfl rfl (congrArg Core.closeSeal h)
    | nothing => exact .leaves rfl rfl (congrArg Core.closeSeal h)
    | request request =>
      have hs' : s' = { s with requests := request :: s.requests } := h
      exact .leaves rfl rfl (by rw [hs'])
    | producer producer =>
      have hs' : s' = { s with handles := producer :: s.handles } := h
      exact .leaves rfl rfl (by rw [hs'])
  | act t a r =>
    refine .leaves rfl rfl ?_
    rw [h.2]
    cases a <;> first | rfl | (cases r <;> rfl)

/-- The kind of `seals`, as it is said of words. -/
theorem sealing_of_seals (h : seals e = true) : Sealing e := by
  unfold seals at h
  split at h
  · exact ⟨_, _, _, rfl⟩
  · cases h

theorem Grown.refl (x : Moment) : Grown own t x x :=
  ⟨⟨[], by simp, by simp⟩, fun h => h, .refl _, fun h => ⟨h, rfl, fun h => h⟩⟩

theorem Grown.trans (h : Grown own t x y) (h' : Grown own t y z) : Grown own t x z where
  events := by
    obtain ⟨more, hy, hmore⟩ := h.events
    obtain ⟨more', hz, hmore'⟩ := h'.events
    refine ⟨more ++ more', by rw [hz, hy, append_assoc], fun e he => ?_⟩
    exact (mem_append.mp he).elim (hmore e) (hmore' e)
  scopes hscope := h'.scopes (h.scopes hscope)
  later := h.later.trans h'.later
  lock hholder := by
    obtain ⟨hholder', hproducers, hsealed⟩ := h.lock hholder
    obtain ⟨hholder'', hproducers', hsealed'⟩ := h'.lock hholder'
    exact ⟨hholder'', hproducers'.trans hproducers, fun hz => hsealed (hsealed' hz)⟩

theorem Grown.mono (h : Grown own t x y) (hown : ∀ e, own e → own' e) : Grown own' t x y := by
  obtain ⟨⟨more, hy, hmore⟩, hscopes, hlater, hlock⟩ := h
  exact ⟨⟨more, hy, fun e he ht => hown e (hmore e he ht)⟩, hscopes, hlater, hlock⟩

/-! ## What an event does -/

namespace CloseGuar

variable {number : Nat} {scope : RequestScope} (h : CloseGuar x e y)

include h

theorem scopes (hscope : x.shared.scope? number = some scope) :
    y.shared.scope? number = some scope := by
  obtain ⟨t, a, r, rfl, -, hy⟩ | ⟨-, _, _, _, hy⟩ := act_or_frame h.does
  · rw [Core.scope?] at hscope ⊢
    rw [hy, effect_scopes]
    split
    · exact getElem?_append_left (List.getElem?_eq_some_iff.mp hscope).1 ▸ hscope
    · exact hscope
  · rw [hy]
    exact hscope

/-- Scopes are made by the one action. -/
theorem made (hscope : y.shared.scope? number = some scope) :
    x.shared.scope? number = some scope ∨ ∃ t, e = .act t (.newScope scope) number := by
  obtain ⟨t, a, r, rfl, hallows, hy⟩ | ⟨-, _, _, _, hy⟩ := act_or_frame h.does
  · rw [Core.scope?] at hscope ⊢
    rw [hy, effect_scopes] at hscope
    cases a with
    | newScope made =>
      rcases Nat.lt_or_ge number (x.shared.scopes.map Prod.fst).length with hlt | hge
      · rw [getElem?_append_left hlt] at hscope
        exact .inl hscope
      rw [getElem?_append_right hge] at hscope
      simp only [getElem?_singleton, Option.ite_none_right_eq_some, Option.some.injEq] at hscope
      obtain ⟨hnumber, rfl⟩ := hscope
      have hlength : number = x.shared.scopes.length := by
        simp only [length_map] at hge hnumber
        omega
      have hr : number = r := hlength.trans hallows.symm
      exact .inr ⟨t, by rw [hr]⟩
    | _ => exact .inl hscope
  · rw [hy] at hscope
    exact .inl hscope

/-- The producers are changed by writes only. -/
theorem producers : y.shared.producers = x.shared.producers ∨
      ∃ t producers, e = .act t (.writeProducers producers) () ∧
        y.shared.producers = producers ∧ y.shared.word = x.shared.word := by
  obtain ⟨t, a, r, rfl, -, hy⟩ | ⟨-, _, _, _, hy⟩ := act_or_frame h.does
  · rw [hy]
    cases a with
    | writeProducers producers => exact .inr ⟨t, producers, rfl, rfl, rfl⟩
    | _ => first | exact .inl rfl | (cases r <;> exact .inl rfl)
  · exact .inl (by rw [hy])

/-- A seal was promised. -/
theorem sealReady (hseals : seals e = true) :
    ∃ old new, e = .act e.thread (.exchange .sealing old new) (.ok ()) ∧
      SealReady e.thread old x := by
  have hpromise := h.promise
  unfold seals at hseals
  split at hseals
  · exact ⟨_, _, rfl, hpromise.2⟩
  · cases hseals

/-- A final obligation is recorded as promised. -/
theorem final {field : FinalField}
    (hfinal : y.shared.finals.map (·.status field) = some .recorded) :
    x.shared.finals.map (·.status field) = some .recorded ∨
      ∃ t, e = .act t (.storeFinal field .recorded) () := by
  obtain ⟨-, hdoes, hpromise⟩ := h
  obtain ⟨t, a, r, rfl, -, hy⟩ | ⟨-, _, _, _, hy⟩ := act_or_frame hdoes
  · rw [hy] at hfinal
    rcases final_effect hfinal with hbefore | rfl | ⟨old, rfl⟩
    · exact .inl hbefore
    · exact .inr ⟨t, rfl⟩
    · exact absurd rfl hpromise
  · rw [hy] at hfinal
    exact .inl hfinal

theorem later : Later x.shared y.shared := by
  obtain ⟨t, a, r, rfl, hallows, hy⟩ | ⟨-, _, _, _, hy⟩ := act_or_frame h.does
  · rw [hy]
    exact later_effect hallows
  · rw [hy]
    exact ⟨Nat.le_refl _, fun h => h, fun h => h⟩

variable (hinv : CloseInv x)

include hinv

theorem seal_bits : SealBits e x.shared.word y.shared.word := by
  obtain ⟨-, hdoes, hpromise⟩ := h
  cases e with
  | call t c => exact .of_eq rfl rfl (begins_word hdoes)
  | ret t c result => exact .of_eq rfl rfl (delivers_word (c := c) hdoes)
  | act t a r =>
    obtain ⟨hallows, hy⟩ := hdoes
    have hword := effect_word t x.shared a r
    rw [← hy] at hword
    cases a with
    | exchange why old new =>
      cases r with
      | error => exact .of_eq (by cases why <;> rfl) (by cases why <;> rfl) hword
      | ok =>
        obtain ⟨hallowed, hpromised⟩ := hpromise
        obtain rfl : x.shared.word = old := hallows
        obtain rfl : y.shared.word = new := hword
        cases why with
        | sealing =>
          have hmask := hallowed.1
          rw [BitVec.and_or_distrib_left] at hmask
          refine .sets rfl (Bool.eq_false_iff.mpr fun hbit =>
            sealed_iff.mpr hbit (BitVec.or_eq_zero_iff.mp hmask).2) ?_ ?_
          · rw [hallowed.2, getLsbD_sealNext 5 (by decide)]
            simp
          · rw [hallowed.2, getLsbD_sealNext 6 (by decide)]
            simp
        | finish success =>
          refine .ends rfl rfl (hinv.sealed_of_holding hpromised.1) ?_
          rw [hallowed, getLsbD_finishNext success 5 (by decide)]
          simp
        | _ => exact .leaves rfl rfl (hallowed.seal_bits rfl).1 (hallowed.seal_bits rfl).2
    | _ => exact .of_eq rfl rfl hword

/-! ## The invariant is kept -/

theorem issued (hscope : y.shared.scope? number = some scope) (hkind : scope.kind ≠ .closeCleanup) :
    number = 0 ∧ scope = bootstrapScope ∨ Issued number scope y.events := by
  have hpromise := h.promise
  rw [h.events]
  rcases h.made hscope with hold | ⟨t, rfl⟩
  · exact (hinv.issued hold hkind).imp_right fun h => h.append _
  · obtain ⟨pre, post, hevents⟩ := hpromise hkind
    exact .inr ⟨t, pre, post, [], by rw [hevents]; simp⟩

theorem once : y.events.countP seals = (y.shared.word.getLsbD 5).toNat := by
  have honce := hinv.once
  rw [h.events, countP_append, countP_singleton, honce]
  cases h.seal_bits hinv with
  | sets hseals hbefore hafter => rw [hbefore, hafter, if_pos hseals]; rfl
  | ends hseals _ hbefore hafter => rw [hbefore, hafter, hseals]; rfl
  | leaves hseals _ hsame => rw [hsame, hseals]; rfl

theorem ready (hsealed : y.shared.word.getLsbD 5 = true) (hready : y.shared.word.getLsbD 6 = true) :
    ∃ e ∈ y.events, finishes e = true := by
  rw [h.events]
  cases h.seal_bits hinv with
  | sets _ _ _ hnone =>
    rw [hready] at hnone
    cases hnone
  | ends _ hfinishes => exact ⟨e, by simp, hfinishes⟩
  | leaves _ _ hsame hsame' =>
    rw [hsame] at hsealed
    rw [hsame' hsealed] at hready
    obtain ⟨e', he', hfinishes⟩ := hinv.ready hsealed hready
    exact ⟨e', mem_append_left _ he', hfinishes⟩

theorem idle (hsealed : y.shared.word.getLsbD 5 = true) :
    ∀ slot ∈ y.shared.producers.slots, slot.live = false := by
  rcases h.producers with hsame | ⟨t, producers, rfl, hproducers, hword⟩
  · rw [hsame]
    cases h.seal_bits hinv with
    | sets hseals =>
      obtain ⟨old, new, -, _, _, _, _, _, _, _, hclean⟩ := h.sealReady hseals
      exact fun slot hslot => (hclean.producers slot hslot).1
    | ends _ _ hbefore => exact hinv.idle hbefore
    | leaves _ _ hkept => exact hinv.idle (hkept ▸ hsealed)
  · rw [hproducers]
    exact h.promise (hword ▸ hsealed)

theorem taken :
    y.shared.stops.next = y.events.countP takesStop ∧ y.shared.stops.next ≤ capacity := by
  rw [h.events, countP_append, countP_singleton, ← hinv.taken]
  obtain ⟨t, a, r, rfl, hallows, hy⟩ | ⟨htakes, _, _, _, hy⟩ := act_or_frame h.does
  · obtain ⟨hnext, hroom⟩ := next_effect hallows hinv.room
    rw [hy]
    refine ⟨?_, hroom⟩
    rw [hnext]
    cases takesStop (.act t a r) <;> rfl
  · rw [hy, htakes]
    exact ⟨rfl, hinv.room⟩

theorem paid : Paid Event.thread takesStop countsEmergency y.events ∧
      Paid Event.thread handsSeal seals y.events ∧
      Paid Event.thread finishes takesSeal y.events := by
  have hpromise := h.promise
  rw [h.events]
  refine ⟨hinv.stopPaid.snoc fun huse => ?_, hinv.sealPaid.snoc fun huse => ?_,
    hinv.finishPaid.snoc fun huse => ?_⟩
  · unfold takesStop at huse
    split at huse
    · exact hpromise
    · cases huse
  · unfold handsSeal at huse
    split at huse
    · exact hpromise
    · cases huse
  · unfold finishes at huse
    split at huse
    · exact hpromise.2.1
    · cases huse

/-- The seal is there once for each time it was handed over and not consumed. -/
theorem handed :
    y.events.countP takesSeal + y.shared.closeSeal.toNat ≤ y.events.countP handsSeal := by
  have hhanded := hinv.handed
  rw [h.events, countP_append, countP_append, countP_singleton, countP_singleton]
  cases seal_held h.does with
  | takes htakes hhands hbefore hafter =>
    rw [hbefore] at hhanded
    rw [if_pos htakes, hhands, hafter]
    exact hhanded
  | hands htakes hhands hafter =>
    rw [htakes, if_pos hhands, hafter, Bool.toNat_true]
    simp only [Bool.false_eq_true, if_false]
    omega
  | leaves htakes hhands hsame =>
    rw [htakes, hhands, hsame]
    exact hhanded

theorem turn
    (hseal : y.shared.closeSeal = true) : InTurn [Sealing, (handsSeal · = true)] y.events := by
  have hpromise := h.promise
  rw [h.events]
  cases seal_held h.does with
  | takes _ _ _ hafter =>
    rw [hseal] at hafter
    cases hafter
  | leaves _ _ hsame => exact (hinv.turn (hsame ▸ hseal)).snoc
  | hands _ hhands =>
    have hholding : Holding Event.thread handsSeal seals e.thread x.events := by
      unfold handsSeal at hhands
      split at hhands
      · exact hpromise
      · cases hhands
    obtain ⟨e', he', hseals⟩ := hholding.given
    obtain ⟨before, after, hevents⟩ := append_of_mem he'
    have hsealing : InTurn [Sealing] x.events :=
      ⟨before, e', after, hevents, sealing_of_seals hseals, trivial⟩
    exact hsealing.next hhands

theorem keeps : CloseInv y where
  issued := h.issued hinv
  once := h.once hinv
  ready := h.ready hinv
  idle := h.idle hinv
  taken := (h.taken hinv).1
  room := (h.taken hinv).2
  stopPaid := (h.paid hinv).1
  sealPaid := (h.paid hinv).2.1
  finishPaid := (h.paid hinv).2.2
  handed := h.handed hinv
  turn := h.turn hinv
  mother hfinal := by
    have hpromise := h.promise
    rw [h.events]
    rcases h.final hfinal with hbefore | ⟨t, rfl⟩
    · exact (hinv.mother hbefore).snoc
    · exact .next hpromise ⟨t, rfl⟩
  primary hfinal := by
    have hpromise := h.promise
    rw [h.events]
    rcases h.final hfinal with hbefore | ⟨t, rfl⟩
    · exact (hinv.primary hbefore).snoc
    · exact .next hpromise ⟨t, rfl⟩

/-- What an event leaves to the holder of the lock, be it another call's or a mild one of its own.
-/
theorem lock (hmild : e.thread = t → mild e = true) (hholder : x.shared.holder = some t) :
    y.shared.holder = some t ∧ y.shared.producers = x.shared.producers ∧
      (y.shared.word.getLsbD 5 = true → x.shared.word.getLsbD 5 = true) := by
  have hlock : y.shared.holder = some t ∧ y.shared.producers = x.shared.producers := by
    obtain ⟨u, a, r, rfl, hallows, hy⟩ | ⟨-, _, _, _, hy⟩ := act_or_frame h.does
    · rw [hy]
      exact lock_effect hallows hholder hmild
    · rw [hy]
      exact ⟨hholder, rfl⟩
  refine ⟨hlock.1, hlock.2, fun hsealed => ?_⟩
  cases h.seal_bits hinv with
  | sets hseals =>
    -- Only the holder of the lock seals, and a seal is not mild.
    obtain ⟨old, new, he, _, _, _, _, _, _, hown, _⟩ := h.sealReady hseals
    have hthread : e.thread = t := Option.some.inj (hown.symm.trans hholder)
    have hcontra := hmild hthread
    rw [he] at hcontra
    cases hcontra
  | ends _ _ hbefore => exact hbefore
  | leaves _ _ hsame => exact hsame ▸ hsealed

theorem grown (hmild : e.thread = t → mild e = true) : Grown (mild · = true) t x y where
  events := ⟨[e], h.events, fun e' he' ht => by
    rw [mem_singleton.mp he'] at ht ⊢
    exact hmild ht⟩
  scopes := h.scopes
  later := h.later
  lock := h.lock hinv hmild

theorem others (hne : e.thread ≠ t) : Grown (fun _ => False) t x y where
  events := ⟨[e], h.events, fun e' he' ht => by
    rw [mem_singleton.mp he'] at ht
    exact hne ht⟩
  scopes := h.scopes
  later := h.later
  lock := h.lock hinv fun ht => absurd ht hne

end CloseGuar

end

/-- The contract of a close. -/
def closeContract : Contract Answer Core Call Result where
  inv := CloseInv
  rely := Grown fun _ => False
  guar := CloseGuar
  refl _ x := .refl x
  trans h h' := h.trans h'
  keeps hinv hguar := hguar.keeps hinv
  others hinv hguar hne := hguar.others hinv hne

end NexusOs.HostSession
