import NexusOs.HostSession.CloseContract

/-!
# Producers and emergencies keep the contract of a close

Tame programs keep it whatever they read (`holds_tame`). The others are gone through action by
action: `emergency` with its stop, and `register`, `joined` and `dropProducer` under the lock.
-/

namespace NexusOs.HostSession

open Utf8 Evidence Threads Transition Tickets History

/-- From a moment to a later one, with only mild events of call `t`. -/
abbrev Calm (t : Nat) (x y : Moment) : Prop := Grown (mild · = true) t x y

/-- A tame action of a call that was given nothing. -/
abbrev Free (a : Action) : Prop := Tame (fun _ _ => False) (fun _ => False) a

/-- A program of tame actions. -/
abbrev FreeProg {α : Type} (p : P α) : Prop := TameProg (fun _ _ => False) (fun _ => False) p

/-- What a call was given, and what it read at first. -/
structure Given (known : Nat → RequestScope → Prop) (read : Word → Prop) (t : Nat) (x : Moment) :
    Prop where
  scope : ∀ {number scope}, known number scope → x.shared.scope? number = some scope
  read : ∀ {word}, read word → ∃ pre post, x.events = pre ++ .act t .load word :: post

/-- What is left of call `t` keeps the contract of a close. -/
abbrev Closes {α : Type} (t : Nat) (p : P α) (post : α → Moment → Prop) (x : Moment) : Prop :=
  Holds machine closeContract t p post x

section

variable {α : Type} {t : Nat} {x y z : Moment}

/-! ## Rules -/

variable {a : Action} {β : Type} {post : Unit → Moment → Prop} {slots : List ProducerSlot}
  {known : Nat → RequestScope → Prop} {read : Word → Prop}

theorem Grown.of_rely (h : closeContract.rely t x y) : Calm t x y := h.mono fun _ => False.elim

theorem Given.calm (h : Given known read t x) (hxy : Calm t x y) : Given known read t y where
  scope hknown := hxy.scopes (h.scope hknown)
  read hread := by
    obtain ⟨more, hmore, -⟩ := hxy.events
    obtain ⟨pre, post, hevents⟩ := h.read hread
    exact ⟨pre, post ++ more, by rw [hmore, hevents]; simp⟩

/-- A tame action promises no more than its call was given. -/
theorem promised_of_tame (h : Tame known read a) (hgiven : Given known read t y) (r : Answer a) :
    Promised t y a r := by
  obtain ⟨hcareful, hplain⟩ := h
  cases a with
  | exchange why old new =>
    cases r with
    | error => trivial
    | ok =>
      refine ⟨hcareful.1, ?_⟩
      cases why with
      | admission number scope => exact hgiven.scope (hcareful.2 number scope rfl)
      | sealing | finish => cases hplain
      | _ => trivial
  | newScope scope => exact fun hkind => hgiven.read (hcareful hkind)
  | storeFinal field status => cases field <;> cases status <;> trivial
  | exchangeFinal field old new =>
    rintro rfl
    cases hplain
  | takeStop | writeProducers => cases hplain
  | _ => trivial

theorem promised_of_free (h : Free a) (r : Answer a) : Promised t y a r :=
  promised_of_tame h ⟨False.elim, False.elim⟩ r

theorem mild_of_plain (h : a.plain = true) (r : Answer a) : mild (.act t a r) = true := by
  cases a with
  | exchange why old new => cases r <;> first | rfl | exact h
  | _ => exact h

/-- One action: what it promises, and what is so after it. -/
theorem holds_act {post : Answer a → Moment → Prop}
    (hpromise : ∀ y r, Calm t x y → CloseInv y → allows t y.shared a r → Promised t y a r)
    (hpost : ∀ y r, Calm t x y → CloseInv y → allows t y.shared a r →
      post r (y.after (effect t y.shared a r) (.act t a r))) : Closes t (act a) post x := by
  refine .perform fun y r shared hrely hinv hperforms => ?_
  have hcalm : Calm t x y := .of_rely hrely
  have hallows := hperforms.1
  obtain ⟨-, rfl⟩ := hperforms
  exact ⟨⟨rfl, ⟨hallows, rfl⟩, hpromise y r hcalm hinv hallows⟩, hpost y r hcalm hinv hallows⟩

/-- A mild event is calm. -/
theorem Grown.after {r : Answer a} (h : Calm t x y) (hinv : CloseInv y)
    (hallows : allows t y.shared a r) (hpromise : Promised t y a r)
    (hmild : mild (.act t a r) = true) : Calm t x (y.after (effect t y.shared a r) (.act t a r)) :=
  h.trans (CloseGuar.grown ⟨rfl, ⟨hallows, rfl⟩, hpromise⟩ hinv fun _ => hmild)

/-- A tame action, and what it reads. -/
theorem holds_read {post : Answer a → Moment → Prop} (h : Free a)
    (hpost : ∀ y r, Calm t x y → CloseInv y → allows t y.shared a r →
      Calm t x (y.after (effect t y.shared a r) (.act t a r)) →
      post r (y.after (effect t y.shared a r) (.act t a r))) : Closes t (act a) post x :=
  holds_act (fun _ r _ _ _ => promised_of_free h r) fun y r hcalm hinv hallows =>
    hpost y r hcalm hinv hallows
      (hcalm.after hinv hallows (promised_of_free h r) (mild_of_plain h.2 r))

variable {p : P α}

/-- A tame program is calm. -/
theorem Given.holds (hgiven : Given known read t x) (h : TameProg known read p) :
    Closes t p (fun _ y => Calm t x y) x := by
  refine (Holds.of_all h (fun {y z} (hcalm : Calm t x y) hrely => hcalm.trans (.of_rely hrely)) ?_
    (.refl x)).mono fun _ _ h => h.2
  intro y a r shared hcalm hinv htame hperforms
  have hallows := hperforms.1
  obtain ⟨-, rfl⟩ := hperforms
  have hpromised := promised_of_tame htame (hgiven.calm hcalm) r
  exact ⟨⟨rfl, ⟨hallows, rfl⟩, hpromised⟩,
    hcalm.after hinv hallows hpromised (mild_of_plain htame.2 r)⟩

theorem holds_tame (h : FreeProg p) : Closes t p (fun _ y => Calm t x y) x :=
  Given.holds ⟨False.elim, False.elim⟩ h

/-- A tame program, whatever comes of it. -/
theorem holds_any (h : FreeProg p) :
    Closes t p (fun _ _ => True) x := (holds_tame h).mono fun _ _ _ => trivial

/-- A program after a tame one. -/
theorem holds_after {f : α → P β} {post : β → Moment → Prop} (h : FreeProg p)
    (hnext : ∀ a y, Calm t x y → Closes t (f a) post y) : Closes t (p >>= f) post x :=
  .bind ((holds_tame h).mono fun a y hcalm => hnext a y hcalm)

/-- An exchange of the word: it happens, at the expected word, or it does not. -/
theorem holds_compare {why : Change} {old new : Word} {rounds : Nat}
    {post : Except Word Unit → Moment → Prop}
    (hpromise : ∀ y, Calm t x y → CloseInv y → y.shared.word = old →
      Promised t y (.exchange why old new) (.ok ()))
    (hok : ∀ y, Calm t x y → CloseInv y → y.shared.word = old → post (.ok ())
      (y.after { y.shared with word := new } (.act t (.exchange why old new) (.ok ()))))
    (herror : ∀ y word, Calm t x y → post (.error word) y) :
    Closes t (sessionCompare why old new rounds) post x := by
  have hloop : ∀ rounds previous z, Calm t x z → Closes t
      (fetchUpdate why (fun word => if word = old then some new else none) rounds previous)
      post z := by
    intro rounds
    induction rounds with
    | zero => exact fun previous z _ y r => r.elim
    | succ rounds ih =>
      intro previous z hz
      rw [fetchUpdate]
      split
      · exact .pure (herror z previous hz)
      rename_i next hnext
      simp only [Option.ite_none_right_eq_some, Option.some.injEq] at hnext
      obtain ⟨rfl, rfl⟩ := hnext
      refine .bind (holds_act ?_ ?_)
      · intro y r hy hinv hallows
        cases r with
        | error => trivial
        | ok => exact hpromise y (hz.trans hy) hinv hallows
      · intro y r hy hinv hallows
        cases r with
        | ok => exact .pure (hok y (hz.trans hy) hinv hallows)
        | error word =>
          exact ih word _ (.after (a := .exchange why previous new) (r := .error word)
            (hz.trans hy) hinv hallows trivial rfl)
  have hload : FreeProg (act .load) := tame_act trivial rfl
  exact holds_after hload fun previous z hz => hloop rounds previous z hz

/-! ## Emergencies -/

variable {rounds : Nat} (kind : ProducerKind) (producer : Producer)

/-- What is mild uses no ticket. -/
theorem unused_of_mild {e : Event} (h : mild e = true) :
    takesStop e = false ∧ finishes e = false ∧ handsSeal e = false := by
  cases e with
  | call | ret => cases h
  | act t a r =>
    cases a with
    | takeStop => cases h
    | exchange why old new =>
      cases r with
      | error => exact ⟨rfl, by cases why <;> rfl, rfl⟩
      | ok => cases why <;> first | exact ⟨rfl, rfl, rfl⟩ | cases h
    | _ => exact ⟨rfl, rfl, rfl⟩

/-- A ticket is held while all that happens is mild. -/
theorem Grown.holding {use ticket : Event → Bool} (h : Calm t x y)
    (huse : ∀ e, mild e = true → use e = false)
    (hholding : Holding Event.thread use ticket t x.events) :
    Holding Event.thread use ticket t y.events := by
  obtain ⟨more, hy, hmore⟩ := h.events
  rw [hy]
  exact hholding.append fun e he ht => huse e (hmore e he ht)

theorem holds_registerStop (generation : Nat)
    (h : Holding Event.thread takesStop countsEmergency t x.events) :
    Closes t (registerStop generation rounds) (fun _ _ => True) x := by
  refine .bind (holds_act (fun y r hy _ _ => ?_) fun y r _ _ _ => ?_)
  · cases r with
    | none => trivial
    | some => exact hy.holding (fun e he => (unused_of_mild he).1) h
  · cases r with
    | none => exact holds_any (.seq (tame_act trivial rfl) fun _ => .last tame_fail)
    | some => exact holds_any (.seq (tame_act trivial rfl) fun _ => .last (tame_act trivial rfl))

theorem holds_emergencyLoop (left : Nat) :
    Closes t (emergencyLoop rounds left) (fun _ _ => True) x := by
  induction left generalizing x with
  | zero => exact holds_any tame_spinning
  | succ left ih =>
    refine holds_after (tame_act trivial rfl) fun old y _ => ?_
    refine .guard trivial fun hopen => ?_
    split
    · exact holds_any (.last tame_fail)
    rename_i hmax
    have hlt : epoch old < maxEpoch :=
      Nat.lt_of_le_of_ne (epoch_le_max old) (mt and_epochMask_of_max hmax)
    refine .bind (holds_compare
      (fun _ _ _ _ => ⟨⟨not_not.mp hopen, hlt, rfl⟩, trivial⟩) ?_ fun _ _ _ => ih)
    -- The emergency that was counted is the ticket for its stop.
    exact fun z _ hinv _ => holds_registerStop _ (hinv.stopPaid.holding rfl rfl rfl)

/-! ## Producers -/

/-- Changing some slot to one that is not live leaves the others. -/
theorem idle_set (h : ∀ slot ∈ slots, slot.live = false) (i : Nat) {slot : ProducerSlot}
    (hslot : slot.live = false) : ∀ found ∈ slots.set i slot, found.live = false := by
  intro found hfound
  rcases List.mem_or_eq_of_mem_set hfound with hold | rfl
  · exact h found hold
  · exact hslot

theorem idle_getD (h : ∀ slot ∈ slots, slot.live = false) (i : Nat) :
    (slots.getD i {}).live = false := by
  rw [List.getD_eq_getElem?_getD]
  cases hi : slots[i]? with
  | none => rfl
  | some slot => exact h slot (List.mem_of_getElem? hi)

/-- A write of producers by the holder of the lock, from what it read. -/
theorem holds_writeProducers {producers : Producers} (hholder : x.shared.holder = some t)
    (hidle : (x.shared.word.getLsbD 5 = true →
      ∀ slot ∈ x.shared.producers.slots, slot.live = false) → x.shared.word.getLsbD 5 = true →
      ∀ slot ∈ producers.slots, slot.live = false)
    (hpost : ∀ y, post () y) : Closes t (act (.writeProducers producers)) post x := by
  refine holds_act (fun y r hy hinv _ hsealed => ?_) fun y _ _ _ _ => hpost _
  obtain ⟨-, hproducers, hbefore⟩ := hy.lock hholder
  refine hidle (fun _ => ?_) (hbefore hsealed)
  rw [← hproducers]
  exact hinv.idle hsealed

/-- The end of a hold of the lock. -/
theorem holds_unlock (hpost : ∀ y, post () y) : Closes t (act .unlock) post x :=
  holds_act (fun _ _ _ _ _ => trivial) fun _ _ _ _ _ => hpost _

/-- Taking the lock, or finding it poisoned. -/
theorem holds_lock {f : Bool → P β} {post : β → Moment → Prop}
    (hpoisoned : ∀ y, Closes t (f false) post y)
    (hlocked : ∀ y, y.shared.holder = some t → Closes t (f true) post y) :
    Closes t (act .lock >>= f) post x := by
  refine .bind (holds_act (fun _ _ _ _ _ => trivial) fun y ok _ _ _ => ?_)
  cases ok with
  | false => exact hpoisoned _
  | true => exact hlocked _ rfl

theorem holds_registerLocked (settlement : Bool) (hholder : x.shared.holder = some t) :
    Closes t (registerLocked kind settlement rounds) (fun _ _ => True) x := by
  refine holds_after (tame_act trivial rfl) fun word y hy => ?_
  refine .guard trivial fun hopen => ?_
  refine .guard trivial fun _ => ?_
  refine holds_after (tame_act trivial rfl) fun producers z hz => ?_
  split
  · exact .pure trivial
  split
  · exact holds_any (.last tame_fail)
  refine .bind (holds_compare (fun _ _ _ _ => ⟨⟨rfl, not_not.mp hopen⟩, trivial⟩) ?_
    fun _ _ _ => .pure trivial)
  intro w hw _ _
  -- The word was not sealed when the exchange found it, and the holder keeps it so.
  refine .bind (holds_writeProducers ((hy.trans (hz.trans hw)).lock hholder).1
    (fun _ hsealed => ?_) fun _ => .pure trivial)
  exact absurd (not_not.mp hopen) (sealed_iff.mpr hsealed)

theorem holds_register (settlement : Bool) :
    Closes t (register kind settlement rounds) (fun _ _ => True) x := by
  refine holds_lock (fun y => ?_) fun y hholder => ?_
  · exact holds_any (.last tame_fail)
  · refine .bind ((holds_registerLocked kind settlement hholder).mono fun _ z _ => ?_)
    exact .bind (holds_unlock fun _ => .pure trivial)

/-- What is read of the producers under the lock. -/
theorem holds_readProducers {f : Producers → P β} {post : β → Moment → Prop}
    (hholder : x.shared.holder = some t)
    (hnext : ∀ y, y.shared.holder = some t → Closes t (f y.shared.producers) post y) :
    Closes t (act .readProducers >>= f) post x := by
  refine .bind (holds_read ⟨trivial, rfl⟩ fun y producers hy _ hallows _ => ?_)
  obtain rfl : producers = y.shared.producers := hallows.2
  exact hnext (y.after y.shared (.act t .readProducers y.shared.producers)) (hy.lock hholder).1

theorem holds_dropProducer : Closes t (dropProducer producer rounds) (fun _ _ => True) x := by
  refine holds_after tame_fail fun _ y _ => holds_lock (fun z => ?_) fun z hholder => ?_
  · exact .pure trivial
  refine holds_readProducers hholder fun w hw => ?_
  dsimp only
  split
  · refine .bind (holds_writeProducers hw (fun hidle hsealed => ?_) fun _ =>
      holds_unlock fun _ => trivial)
    exact idle_set (hidle hsealed) _ (idle_getD (hidle hsealed) _)
  · exact holds_unlock fun _ => trivial

theorem holds_joined : Closes t (joined producer rounds) (fun _ _ => True) x := by
  refine holds_lock (fun y => ?_) fun y hholder => ?_
  · exact holds_after tame_fail fun _ _ _ => holds_dropProducer producer
  refine holds_readProducers hholder fun z hz => ?_
  have hrest : ∀ (found : Bool) (w : Moment), Closes t (do
      act .unlock
      if !found then dropProducer producer rounds) (fun _ _ => True) w := by
    intro found w
    refine .bind (holds_unlock fun _ => ?_)
    split
    · exact holds_dropProducer producer
    · exact .pure trivial
  dsimp only
  split
  · refine .bind (holds_writeProducers hz (fun hidle hsealed => ?_) fun _ => hrest _ _)
    exact idle_set (hidle hsealed) _ rfl
  · exact hrest _ _

theorem holds_finishBootstrap : Closes t (finishBootstrap rounds) (fun _ _ => True) x := by
  refine holds_after (tame_act trivial rfl) fun ready y _ => ?_
  refine .guard trivial fun _ => ?_
  refine holds_after (tame_act trivial rfl) fun done z _ => ?_
  refine .guard trivial fun _ => ?_
  refine .bind (holds_act (fun _ _ _ _ _ => trivial) fun w ok _ _ _ => ?_)
  refine .guard trivial fun _ => ?_
  exact holds_after tame_readyLocked fun _ _ _ => .bind (holds_unlock fun _ => .pure trivial)

theorem holds_settleCloseAuthority (request : SessionRequest) :
    Closes t (settleCloseAuthority request rounds) (fun _ _ => True) x := by
  have hoperation : ∀ x : Moment, Closes t (closeOperation request rounds) (fun _ _ => True) x := by
    intro x
    refine holds_after (tame_closeRequest request) fun ok y _ => ?_
    refine .guard trivial fun _ => ?_
    refine .bind ((holds_register .work true).mono fun registered z _ => ?_)
    split
    · exact .pure trivial
    refine holds_after (tame_closeRequest request) fun ok w _ => ?_
    split
    · exact .bind ((holds_joined _).mono fun _ _ _ => .pure trivial)
    · exact .pure trivial
  refine .bind ((hoperation x).mono fun operation y _ => ?_)
  split
  · exact .pure trivial
  refine holds_after (tame_act trivial rfl) fun reply z _ => ?_
  split
  · exact holds_after (tame_act trivial rfl) fun _ _ _ =>
      .bind ((holds_joined _).mono fun _ _ _ => .pure trivial)
  · exact holds_after tame_fail fun _ _ _ =>
      .bind ((holds_joined _).mono fun _ _ _ => .pure trivial)
  · exact .bind ((holds_dropProducer _).mono fun _ _ _ => .pure trivial)

end

end NexusOs.HostSession
