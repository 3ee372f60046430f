import NexusOs.HostSession.SealReads

/-!
# Every operation keeps the contract of a close

The steps after the seal keep it (`holds_observeMotherEnd`, `holds_closePrimary`,
`holds_finishDelivery`), and so does every operation (`close_honoured`); `step_closeGuar` and
`run_closeInv` say it of steps and states.
-/

namespace NexusOs.HostSession

open Utf8 Evidence Threads Transition Tickets History List

section

variable {t rounds : Nat} {x y z : Moment} {c : Call}

/-! ## After the seal -/

theorem InTurn.calm {qs : List (Event → Prop)} (h : InTurn qs x.events) (hxy : Calm t x y) :
    InTurn qs y.events := by
  obtain ⟨more, hy, -⟩ := hxy.events
  rw [hy]
  exact h.append more

theorem holds_observeMotherEnd (h : InTurn [Sealing, (handsSeal · = true)] x.events) :
    Closes t observeMotherEnd (fun _ _ => True) x := by
  refine holds_after tame_sealLive fun live y hy => ?_
  refine .guard trivial fun _ => ?_
  refine holds_after (tame_act trivial rfl) fun mother z hz => ?_
  refine .guard trivial fun _ => ?_
  refine holds_after (tame_act trivial rfl) fun history w hw => ?_
  split
  · exact .pure trivial
  rename_i records head
  refine .bind (holds_read ⟨trivial, rfl⟩ fun v verified hv _ _ _ => ?_)
  refine .guard trivial fun hverified => ?_
  obtain rfl : verified = true := by simpa using hverified
  have hturn : InTurn motherTurns (v.after (effect t v.shared (.verifyEnd records head) true)
      (.act t (.verifyEnd records head) true)).events :=
    InTurn.next (InTurn.calm h (hy.trans (hz.trans (hw.trans hv)))) ⟨t, records, head, rfl⟩
  exact Holds.bind (holds_act (fun _ _ hu _ _ => InTurn.calm hturn hu) fun _ _ _ _ _ =>
    .pure trivial)

theorem holds_closePrimary : Closes t closePrimary (fun _ _ => True) x := by
  refine holds_after tame_sealLive fun live y hy => ?_
  refine .guard trivial fun _ => ?_
  refine .bind (holds_read ⟨trivial, rfl⟩ fun z mother _ hinv hmother hz => ?_)
  refine .guard trivial fun hrecorded => ?_
  rw [not_not] at hrecorded
  subst hrecorded
  have hturn : InTurn (motherTurns ++ [MotherRecorded]) (z.after
      (effect t z.shared (.loadFinal .mother) (some .recorded))
      (.act t (.loadFinal .mother) (some .recorded))).events :=
    (hinv.mother hmother.symm).snoc
  refine holds_after (tame_act trivial rfl) fun taken w hw => ?_
  refine .guard trivial fun _ => ?_
  refine .bind (holds_read ⟨trivial, rfl⟩ fun v status hv _ _ _ => ?_)
  cases status with
  | recorded seq =>
    have hturn' : InTurn primaryTurns (v.after (effect t v.shared .closeSession (.recorded seq))
        (.act t .closeSession (.recorded seq))).events :=
      InTurn.next (InTurn.calm hturn (hw.trans hv)) ⟨t, seq, rfl⟩
    exact Holds.bind (holds_act (fun _ _ hu _ _ => InTurn.calm hturn' hu) fun _ _ _ _ _ =>
      .pure trivial)
  | owed => exact holds_any (.last (tame_act trivial rfl))
  | uncertain => exact .pure trivial

theorem holds_finish (success : Bool)
    (hholding : Holding Event.thread finishes takesSeal t x.events)
    (hturn : success = true → InTurn deliveryTurns x.events) :
    Closes t (finish success rounds) (fun _ _ => True) x := by
  have hloop : ∀ left (y : Moment), Calm t x y →
      Closes t (finishLoop success rounds left) (fun _ _ => True) y := by
    intro left
    induction left with
    | zero => exact fun _ _ => holds_any tame_spinning
    | succ left ih =>
      intro y hy
      refine holds_after (tame_act trivial rfl) fun word z hz => ?_
      refine .bind (holds_compare (fun w hw _ _ => ?_)
        (fun _ _ _ _ => .pure trivial) fun w _ hw => ih w (hy.trans (hz.trans hw)))
      have hxw := hy.trans (hz.trans hw)
      exact ⟨rfl, hxw.holding (fun e he => (unused_of_mild he).2.1) hholding,
        fun hsuccess => InTurn.calm (hturn hsuccess) hxw⟩
  exact hloop rounds x (.refl x)

theorem holds_deliverable :
    Closes t deliverable (fun success y => Calm t x y ∧
      (success = true → InTurn deliveryTurns y.events)) x := by
  refine holds_after tame_sealLive fun live y hy => ?_
  split
  · exact .pure ⟨hy, nofun⟩
  refine holds_after (tame_act trivial rfl) fun mother z hz => ?_
  split
  · exact .pure ⟨hy.trans hz, nofun⟩
  refine .bind (holds_read ⟨trivial, rfl⟩ fun w primary hw hinv hprimary hw' => ?_)
  refine .pure ⟨hy.trans (hz.trans hw'), fun hrecorded => ?_⟩
  rw [beq_iff_eq] at hrecorded
  subst hrecorded
  exact (hinv.primary hprimary.symm).snoc

theorem holds_finishDelivery (hholding : Holding Event.thread finishes takesSeal t x.events) :
    Closes t (finishDelivery rounds) (fun _ _ => True) x := by
  refine .bind (holds_deliverable.mono fun success y hy => ?_)
  refine holds_after ?_ fun _ z hz => ?_
  · exact tame_act trivial (by cases success <;> rfl)
  · refine .bind ((holds_finish success ?_ ?_).mono fun _ _ _ => .pure trivial)
    · exact (hy.1.trans hz).holding (fun e he => (unused_of_mild he).2.1) hholding
    · exact fun hsuccess => InTurn.calm (hy.2 hsuccess) hz

/-! ## Every operation -/

theorem returns_close {result : Result}
    (h : result = .closeSeal → Holding Event.thread handsSeal seals t x.events) :
    Returns machine closeContract t c result x := by
  intro y shared hrely hinv hdelivers
  refine ⟨rfl, hdelivers, ?_⟩
  cases result with
  | closeSeal => exact (Grown.of_rely hrely).holding (fun e he => (unused_of_mild he).2.2) (h rfl)
  | _ => trivial

theorem holds_quietly {α : Type} {p : P α} (h : Closes t p (fun _ _ => True) x) :
    Closes t (quietly p) (Returns machine closeContract t c) x :=
  .bind (h.mono fun _ _ _ => .pure (returns_close nofun))

theorem holds_handing {ε α : Type} {p : P (Except ε α)} {f : α → Result}
    (hf : ∀ a, f a ≠ .closeSeal) (h : Closes t p (fun _ _ => True) x) :
    Closes t (handing f <$> p) (Returns machine closeContract t c) x := by
  refine .bind (h.mono fun result _ _ => .pure (returns_close fun heq => ?_))
  cases result with
  | ok a => exact absurd heq (hf a)
  | error => cases heq

/-- Every operation keeps the contract of a close. -/
theorem close_honoured : Honoured machine closeContract := by
  intro t x c shared hinv hbegins
  refine ⟨⟨rfl, hbegins, trivial⟩, ?_⟩
  obtain ⟨op, rounds⟩ := c
  cases op with
  | emergency => exact holds_quietly (holds_emergencyLoop rounds)
  | fail => exact holds_quietly (holds_any tame_fail)
  | failSession => exact holds_quietly (holds_any tame_failSession)
  | accept kind sequence =>
    refine holds_handing nofun (.bind (holds_read ⟨trivial, rfl⟩ fun y word _ _ _ _ => ?_))
    -- The word that `accept` reads at first is the snapshot of its scope.
    have hgiven : Given (fun _ _ => False) (· = word) t (y.after y.shared (.act t .load word)) :=
      ⟨False.elim, fun h => ⟨y.events, [], h ▸ rfl⟩⟩
    exact (hgiven.holds (tame_acceptAt kind sequence rfl)).mono fun _ _ _ => trivial
  | engageTagged tag => exact holds_quietly (holds_any (tame_latch tag false))
  | engageEmergency => exact holds_quietly (holds_any (tame_latch .emergencyStop true))
  | admission number scope =>
    obtain ⟨hscope, rfl⟩ := hbegins
    have hgiven : Given (fun number' scope' => number' = number ∧ scope' = scope) (fun _ => False)
        t (x.after x.shared (.call t ⟨.admission number scope, rounds⟩)) := by
      refine ⟨?_, False.elim⟩
      rintro _ _ ⟨rfl, rfl⟩
      exact getElem?_map.trans hscope
    exact holds_quietly ((hgiven.holds (tame_admitScope ⟨rfl, rfl⟩)).mono fun _ _ _ => trivial)
  | finishBootstrap => exact holds_quietly holds_finishBootstrap
  | register kind settlement => exact holds_handing nofun (holds_register kind settlement)
  | joined producer => exact holds_quietly (holds_joined producer)
  | dropProducer producer => exact holds_quietly (holds_dropProducer producer)
  | recordStop event => exact holds_quietly (holds_any (tame_recordStop event))
  | stopSpawnFailed event => exact holds_quietly (holds_any (tame_stopSpawnFailed event))
  | settleCloseAuthority request => exact holds_quietly (holds_settleCloseAuthority request)
  | sealClose request =>
    refine .bind ((holds_sealClose request).mono fun result y hy => ?_)
    refine .pure (returns_close fun heq => hy ?_)
    match result with
    | some (.ok ()) => rfl
    | some (.error _) | none => cases heq
  | beginMotherEnd => exact holds_quietly (holds_any tame_beginMotherEnd)
  | observeMotherEnd =>
    obtain ⟨hseal, -⟩ := hbegins
    exact holds_quietly (holds_observeMotherEnd (hinv.turn hseal).snoc)
  | closePrimary => exact holds_quietly holds_closePrimary
  | finishDelivery =>
    exact holds_quietly (holds_finishDelivery (hinv.finishPaid.holding rfl rfl rfl))
  | dropSeal => exact holds_quietly (holds_finish false (hinv.finishPaid.holding rfl rfl rfl) nofun)

theorem closeInv_initial : CloseInv ⟨{}, []⟩ where
  issued {number scope} hscope _ := by
    refine .inl ?_
    simp only [Core.scope?, map_cons, map_nil, getElem?_singleton,
      Option.ite_none_right_eq_some, Option.some.injEq] at hscope
    exact ⟨hscope.1, hscope.2.symm⟩
  once := by decide
  ready h := absurd h (by decide)
  idle h := absurd h (by decide)
  taken := rfl
  room := Nat.zero_le _
  stopPaid := .nil
  sealPaid := .nil
  finishPaid := .nil
  handed := Nat.le_refl 0
  turn := nofun
  mother := nofun
  primary := nofun

end

section

variable {before events : List Event} {x y : State} {e : Event}

theorem run_closeInv (hx : SessionRun events x) : CloseInv x.now :=
  (close_honoured.reached closeInv_initial hx).inv

theorem step_closeGuar (hx : SessionRun before x) (h : Step machine x e y) :
    CloseGuar x.now e y.now :=
  (h.kept close_honoured (close_honoured.reached closeInv_initial hx)).1

end

end NexusOs.HostSession
