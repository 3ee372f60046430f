import NexusOs.Mother.Replay.Ended

/-!
# Nothing goes on by itself after an unclean shutdown

An opening after a session that was not closed cleanly obliges every unfinished mission to be
held. Until its Owner resumes it, such a mission must still be held, is held, or has ended
(`Resting`), and while it rests replay accepts only the records of `MissionState.atRest`.
-/

namespace NexusOs.Mother

open History Transition List MissionState

/-- The session before was closed cleanly: the last session record is a `SessionClosed`. -/
def ClosedCleanly : List Entry → Prop :=
  Since (fun entry => entry.event ≠ .sessionOpened ∧ entry.event ≠ .sessionClosed)
    fun _ entry => entry.event = .sessionClosed

variable {entries : List Entry}

/-- Replay's session is closed exactly after a clean close. -/
theorem session_eq_closed_iff {r : Replayed} (h : replayAll entries = .ok r) :
    r.session = .closed ↔ ClosedCleanly entries := by
  induction entries using List.reverseRecOn generalizing r with
  | nil =>
    obtain rfl : r = {} := by simpa [replayAll_eq_ok] using h
    simp [ClosedCleanly, not_since_nil]
  | append_singleton before entry ih =>
    obtain ⟨middle, hmiddle, hstep⟩ := replayAll_snoc.mp h
    rw [ClosedCleanly, since_snoc, ← ClosedCleanly, ← ih hmiddle]
    obtain ⟨hevent, -, rfl⟩ | ⟨hevent, -, -, -, rfl⟩ | ⟨contract, hevent, hopen, -, -, rfl⟩ |
        ⟨hopen, m, m', -, hreplay, rfl⟩ := replay_cases hstep
    · simp [hevent]
    · simp [hevent]
    · simp [hevent]
    simp only [hopen, and_false, or_false, false_iff]
    intro hevent
    have hown := (records_of_replayMission hreplay).isOwn
    simp [hevent, Event.isOwn] at hown

/-- The records of a mission between an unclean shutdown and its Owner's resume. -/
def MissionState.atRest (s : MissionState) : Event → Bool
  | .laneOvertaken _ | .approvalClosed _ | .settlementStarted _ _ => true
  | .held _ | .resumed | .fileModeSelected => true
  | .transition trigger => (transition s trigger).any isTerminal
  | _ => false

/-- A mission that has ended, must be held or is held: nothing goes on in it by itself. -/
def Mission.resting (m : Mission) : Bool := m.state.isTerminal || m.mustHold || m.held.isSome

variable {m m' : Mission} {entry : Entry} {id : MissionId}

/-- A mission that rests and has not ended takes only the records of `atRest`. -/
theorem atRest_of_resting (hrest : m.resting) (hlive : m.state.isTerminal = false)
    (h : replayMission m entry = .ok m') : m.state.atRest entry.event := by
  have hrecord := records_of_replayMission h
  by_cases hmust : m.mustHold
  · obtain hevent | hbefore := beforeHold_of_replayMission h hmust
    · simp [hevent, atRest]
    · revert hbefore
      cases entry.event <;> simp [Mission.beforeHold, atRest]
  have hheld : m.held.isSome := by simpa [Mission.resting, hlive, hmust] using hrest
  obtain hevent | hwhile := whileHeld_of_replayMission h hheld
  · simp [hevent, atRest]
  cases hrecord with
  | transition trigger target hevent htable =>
    -- While held, only a Stop and a File's settlement move a mission, and both end it.
    rw [hevent] at hwhile ⊢
    have hterminal : target.isTerminal := by
      cases trigger with
      | stop => rw [(transition_stop.mp htable).2]; rfl
      | settled => exact isTerminal_of_isSettled htable rfl
      | _ => cases hwhile
    simp [atRest, htable, hterminal]
  | _ => simp_all [Event.whileHeld, atRest]

/-- A mission that rests goes on resting, unless it is resumed from its hold. -/
theorem resting_step (hending : Ending m) (hrest : m.resting)
    (h : replayMission m entry = .ok m') : m'.resting ∨ entry.event = .resumed ∧ m.held.isSome := by
  have hrecord := records_of_replayMission h
  by_cases hterminal : m.state.isTerminal
  · have hafter := hending.afterEnd hterminal hrecord
    have hsame := hrecord.sameCourse (by rintro t ht; simp [ht, Event.afterEnd] at hafter)
    simp [Mission.resting, hsame.state, hterminal]
  rw [Bool.not_eq_true] at hterminal
  have hallowed := atRest_of_resting hrest hterminal h
  cases hrecord with
  | transition trigger target hevent htable => simp_all [Mission.resting, atRest]
  | held => simp [Mission.resting]
  | resumed hevent hheld => exact .inr ⟨hevent, hheld⟩
  | fileMode | overtaken | closed | settlementStarted => exact .inl hrest
  | _ => simp_all [atRest]

/-- An entry that holds the mission `id`. -/
def Entry.Holds (id : MissionId) (entry : Entry) : Prop :=
  entry.mission = id ∧ ∃ reason, entry.event = .held reason

/-- An entry that resumes the mission `id`. -/
def Entry.Resumes (id : MissionId) (entry : Entry) : Prop :=
  entry.mission = id ∧ entry.event = .resumed

/-- Among the entries are a `Held` of the mission and after it a `Resumed`. -/
def ResumedAfterHold (id : MissionId) (entries : List Entry) : Prop :=
  ∃ before held between resumed after, entries = before ++ held :: (between ++ resumed :: after) ∧
    held.Holds id ∧ resumed.Resumes id

theorem ResumedAfterHold.snoc (entry : Entry) (h : ResumedAfterHold id entries) :
    ResumedAfterHold id (entries ++ [entry]) := by
  obtain ⟨before, held, between, resumed, after, rfl, hheld, hresumed⟩ := h
  exact ⟨before, held, between, resumed, after ++ [entry], by simp, hheld, hresumed⟩

theorem resumedAfterHold_snoc
    (hheld : ∃ held ∈ entries, held.Holds id) (hentry : entry.Resumes id) :
    ResumedAfterHold id (entries ++ [entry]) := by
  obtain ⟨held, hmem, hheld⟩ := hheld
  obtain ⟨before, after, rfl⟩ := append_of_mem hmem
  exact ⟨before, held, after, entry, [], by simp, hheld, hentry⟩

/-- A mission and the entries since the opening that obliged it to be held. -/
structure RestingSince (id : MissionId) (later : List Entry) (m : Mission) : Prop where
  ending : Ending m
  held : m.held.isSome → ∃ entry ∈ later, entry.Holds id
  resting : ¬ResumedAfterHold id later → m.resting

namespace RestingSince

variable {id : MissionId} {later : List Entry} {entry : Entry} {m m' : Mission}

/-- An entry that leaves the mission's rest alone. -/
theorem frame (h : RestingSince id later m) (hending : Ending m') (hheld : m'.held = m.held)
    (hrest : m.resting → m'.resting) : RestingSince id (later ++ [entry]) m' where
  ending := hending
  held hsome := by
    obtain ⟨held, hmem, hholds⟩ := h.held (hheld ▸ hsome)
    exact ⟨held, mem_append_left _ hmem, hholds⟩
  resting hnot := hrest (h.resting fun hresumed => hnot (hresumed.snoc entry))

/-- A record of the mission keeps it at rest, or resumes it from a hold. -/
theorem step (h : RestingSince id later m) (hid : entry.mission = id)
    (hreplay : replayMission m entry = .ok m') : RestingSince id (later ++ [entry]) m' := by
  have hrecord := records_of_replayMission hreplay
  refine ⟨h.ending.step hrecord, ?_, ?_⟩
  · intro hsome
    by_cases hevent : ∃ reason, entry.event = .held reason
    · exact ⟨entry, by simp, hid, hevent⟩
    have hbefore : m.held.isSome := by
      cases hrecord with
      | held reason hheld => exact absurd ⟨reason, hheld⟩ hevent
      | transition trigger target =>
        simp only [Mission.moved, Mission.apply_held] at hsome
        split at hsome
        · cases hsome
        · exact hsome
      | resumed => cases hsome
      | _ => exact hsome
    obtain ⟨held, hmem, hholds⟩ := h.held hbefore
    exact ⟨held, mem_append_left _ hmem, hholds⟩
  · intro hnot
    have hrest := h.resting fun hresumed => hnot (hresumed.snoc entry)
    obtain hrest | ⟨hevent, hheld⟩ := resting_step h.ending hrest hreplay
    · exact hrest
    · exact absurd (resumedAfterHold_snoc (h.held hheld) ⟨hid, hevent⟩) hnot

end RestingSince

variable {before since : List Entry} {opening : Entry}

/-- A mission that was unfinished and not held when a session was opened after one that was not
closed cleanly rests since then. -/
theorem restingSince (hevent : opening.event = .sessionOpened) (hclean : ¬ClosedCleanly before)
    (hm : missionAfter before id = some m) (hlive : m.state.isTerminal = false)
    (hheld : m.held = none) (haccepts : accepts (before ++ opening :: since)) :
    ∃ m', missionAfter (before ++ opening :: since) id = some m' ∧ RestingSince id since m' := by
  obtain ⟨r, hr, hm⟩ := missionAfter_eq_some.mp hm
  obtain ⟨last, hlast⟩ := accepts_iff.mp haccepts
  obtain ⟨r₀, hr₀, hrun⟩ := replayAll_append.mp hlast
  obtain rfl : r = r₀ := Except.ok.inj (hr.symm.trans hr₀)
  obtain ⟨opened, hstep, hrun⟩ := Run.cons_iff.mp hrun
  have hopened : opened.missions[id]? = some (m.reopened false) := by
    obtain ⟨-, -, rfl⟩ | ⟨h, -⟩ | ⟨_, h, -⟩ | ⟨-, n, n', -, hn, -⟩ := replay_cases hstep
    · have hsession : r.session ≠ .closed := fun h => hclean ((session_eq_closed_iff hr).mp h)
      simp [hm, hsession]
    · simp [hevent] at h
    · simp [hevent] at h
    · have hown := (records_of_replayMission hn).isOwn
      simp [hevent, Event.isOwn] at hown
  have hopening := replayAll_snoc.mpr ⟨r, hr, hstep⟩
  have hinit : RestingSince id [] (m.reopened false) := by
    refine ⟨ending hopening hopened, ?_, ?_⟩ <;>
      simp [Mission.reopened, Mission.mustHoldNow, Mission.invalidateCalls, Mission.resting, hlive,
        hheld]
  obtain ⟨m', hm', hresting⟩ := mission_run hopening hopened hinit
    (fun h hobliged => h.frame (h.ending.session hobliged) rfl fun hrest => by
      obtain rfl | ⟨rfl, -⟩ := hobliged
      · exact hrest
      · simp [Mission.resting])
    (fun h hid hreplay => h.step hid hreplay) (fun h _ => h.frame h.ending rfl fun hrest => hrest)
    hrun
  exact ⟨m', missionAfter_eq_some.mpr ⟨last, hlast, hm'⟩, hresting⟩

/-- A hold lasts until the mission is resumed or moved, whatever sessions are opened and closed
meanwhile. -/
theorem held_since {later : List Entry}
    (hm : missionAfter before id = some m) (haccepts : accepts (before ++ later))
    (hheld : m.held.isSome) (hlater : ∀ entry ∈ later, entry.mission = id → entry.event ≠ .resumed ∧
      ∀ trigger, entry.event ≠ .transition trigger) :
    ∃ m', missionAfter (before ++ later) id = some m' ∧ m'.held = m.held := by
  refine kept_since hm haccepts (fun _ _ => rfl) ?_
  intro n entry n' hmem hid hkept hreplay
  obtain ⟨hresumed, htransition⟩ := hlater entry hmem hid
  obtain hevent | hwhile := whileHeld_of_replayMission hreplay (hkept ▸ hheld)
  all_goals
    cases records_of_replayMission hreplay with
    | transition trigger target hmoves => exact absurd hmoves (htransition trigger)
    | resumed hresumes => exact absurd hresumes hresumed
    | held => simp_all [Event.whileHeld]
    | _ => exact hkept

/-- A mission whose File mode was selected keeps it. -/
theorem fileMode_since {later : List Entry} (hid : entry.mission = id)
    (hevent : entry.event = .fileModeSelected) (haccepts : accepts (before ++ entry :: later)) :
    ∃ m, missionAfter (before ++ entry :: later) id = some m ∧ m.fileMode := by
  obtain ⟨r, r', hr, hstep, hr'⟩ := accepts_append_cons haccepts
  obtain ⟨m, m', hm, hreplay, rfl⟩ := replay_own hstep (by simp [hevent, Event.isOwn])
  have hselected : m'.fileMode := by cases records_of_replayMission hreplay <;> simp_all
  have hafter : missionAfter (before ++ [entry]) id = some m' :=
    missionAfter_eq_some.mpr ⟨_, hr', by simp [hid]⟩
  have haccepts : accepts ((before ++ [entry]) ++ later) := by simpa using haccepts
  obtain ⟨last, hlast, hkept⟩ := kept_since (f := Mission.fileMode) hafter haccepts
    (fun _ _ => rfl) (by
      intro n entry n' _ _ hkept hreplay
      cases records_of_replayMission hreplay with
      | transition trigger target => simpa using hkept
      | fileMode => exact hselected.symm
      | _ => exact hkept)
  exact ⟨last, by simpa using hlast, hkept.trans hselected⟩

/-- Nothing but the next opening follows a clean close. -/
theorem opened_after_closed {after : List Entry} {closed next : Entry}
    (haccepts : accepts (before ++ closed :: next :: after))
    (hclosed : closed.event = .sessionClosed) : next.event = .sessionOpened := by
  have haccepts : accepts ((before ++ [closed]) ++ next :: after) := by simpa using haccepts
  obtain ⟨r, r', hr, hstep, -⟩ := accepts_append_cons haccepts
  have hsession : r.session = .closed := (session_eq_closed_iff hr).mpr (.now hclosed)
  obtain ⟨hevent, -⟩ | ⟨-, -, hopen, -⟩ | ⟨_, -, hopen, -⟩ | ⟨hopen, -⟩ := replay_cases hstep
  · exact hevent
  · simp [hsession] at hopen
  · exact absurd hsession hopen
  · exact absurd hsession hopen

/-- The mission `id` was unfinished and not held where `opening` opened a session after one that
was not closed cleanly. -/
structure OpenedUncleanly (id : MissionId) (before : List Entry) (opening : Entry) : Prop where
  opened : opening.event = .sessionOpened
  unclean : ¬ClosedCleanly before
  unfinished : ∃ m, missionAfter before id = some m ∧ m.state.isTerminal = false ∧ m.held = none

/-- Where a session was opened uncleanly, the mission rests before every later entry, until it is
resumed from a hold. -/
theorem OpenedUncleanly.resting {rest : List Entry} (h : OpenedUncleanly id before opening)
    (haccepts : accepts (before ++ opening :: (since ++ entry :: rest)))
    (hnot : ¬ResumedAfterHold id since) :
    ∃ r r' m, replayAll (before ++ opening :: since) = .ok r ∧ replay r entry = .ok r' ∧
      r.missions[id]? = some m ∧ m.resting := by
  obtain ⟨hevent, hclean, m, hm, hlive, hheld⟩ := h
  have haccepts : accepts ((before ++ opening :: since) ++ entry :: rest) := by simpa using haccepts
  obtain ⟨r, r', hr, hstep, -⟩ := accepts_append_cons haccepts
  obtain ⟨m', hm', hresting⟩ := restingSince hevent hclean hm hlive hheld (accepts_iff.mpr ⟨r, hr⟩)
  obtain ⟨r₀, hr₀, hm'⟩ := missionAfter_eq_some.mp hm'
  obtain rfl : r = r₀ := Except.ok.inj (hr.symm.trans hr₀)
  exact ⟨r, r', m', hr, hstep, hm', hresting.resting hnot⟩

/-- What an accepted journal keeps to after unclean shutdowns. -/
structure RestsAfterUncleanShutdown (entries : List Entry) : Prop where
  /-- Until it has ended or is resumed from a hold, a mission has only the records of `atRest`. -/
  atRest : ∀ id before opening since entry rest,
    entries = before ++ opening :: (since ++ entry :: rest) → OpenedUncleanly id before opening →
    ¬ResumedAfterHold id since → entry.mission = id →
    ∃ m, missionAfter (before ++ opening :: since) id = some m ∧
      (m.state.isTerminal = false → m.state.atRest entry.event)
  /-- A hold survives sessions and everything else but a resume and a transition. -/
  holdSurvives : ∀ id before later m, entries = before ++ later →
    missionAfter before id = some m → m.held.isSome →
    (∀ entry ∈ later, entry.mission = id →
      entry.event ≠ .resumed ∧ ∀ trigger, entry.event ≠ .transition trigger) →
    ∃ m', missionAfter entries id = some m' ∧ m'.held = m.held
  /-- No session is closed while such a mission is neither held nor ended. -/
  closes : ∀ id before opening since entry rest,
    entries = before ++ opening :: (since ++ entry :: rest) → OpenedUncleanly id before opening →
    ¬ResumedAfterHold id since → entry.event = .sessionClosed →
    ∃ m, missionAfter (before ++ opening :: since) id = some m ∧
      (m.held.isSome ∨ m.state.isTerminal)
  /-- A mission in File mode is never resumed. -/
  fileMode : ∀ before entry after, entries = before ++ entry :: after → entry.event = .resumed →
    ∀ e ∈ before, e.mission = entry.mission → e.event ≠ .fileModeSelected
  /-- Nothing but an opening follows a close. -/
  afterClose : ∀ before closed next after, entries = before ++ closed :: next :: after →
    closed.event = .sessionClosed → next.event = .sessionOpened

/-- Nothing goes on by itself after an unclean shutdown. -/
theorem restsAfterUncleanShutdown {entries : List Entry} (h : accepts entries) :
    RestsAfterUncleanShutdown entries where
  atRest id before opening since entry rest hentries hopened hnot hid := by
    subst hentries hid
    obtain ⟨r, r', m, hr, hstep, hm, hrest⟩ := hopened.resting h hnot
    obtain ⟨m', hreplay, -⟩ := replayMission_of_replay hr hm hstep
    exact ⟨m, missionAfter_eq_some.mpr ⟨r, hr, hm⟩,
      fun hlive => atRest_of_resting hrest hlive hreplay⟩
  holdSurvives id before later m hentries hm hheld hlater := by
    subst hentries
    exact held_since hm h hheld hlater
  closes id before opening since entry rest hentries hopened hnot hclosed := by
    subst hentries
    obtain ⟨r, r', m, hr, hstep, hm, hrest⟩ := hopened.resting h hnot
    refine ⟨m, missionAfter_eq_some.mpr ⟨r, hr, hm⟩, ?_⟩
    have hrefuses : m.refusesClose = false := by
      obtain ⟨hevent, -⟩ | ⟨-, -, -, hrefuses, -⟩ | ⟨_, hevent, -⟩ | ⟨-, n, n', -, hn, -⟩ :=
        replay_cases hstep
      · simp [hclosed] at hevent
      · exact hrefuses id m hm
      · simp [hclosed] at hevent
      · have hown := (records_of_replayMission hn).isOwn
        simp [hclosed, Event.isOwn] at hown
    have hmust : m.mustHold = false := (Bool.or_eq_false_iff.mp hrefuses).1
    simpa [Mission.resting, hmust, or_comm] using hrest
  fileMode before entry after hentries hresumed e he hown hselected := by
    subst hentries
    obtain ⟨earlier, between, rfl⟩ := append_of_mem he
    obtain ⟨r, r', hr, hstep, -⟩ := accepts_append_cons h
    obtain ⟨m, hm, hfile⟩ := fileMode_since hown hselected (accepts_iff.mpr ⟨r, hr⟩)
    obtain ⟨r₀, hr₀, hm⟩ := missionAfter_eq_some.mp hm
    obtain rfl : r = r₀ := Except.ok.inj (hr.symm.trans hr₀)
    obtain ⟨m', hreplay, -⟩ := replayMission_of_replay hr hm hstep
    cases records_of_replayMission hreplay with
    | resumed _ _ hmission => simp [hfile] at hmission
    | _ => simp_all
  afterClose before closed next after hentries hclosed := by
    subst hentries
    exact opened_after_closed h hclosed

/-- A session with a draft, not closed. -/
def uncleanJournal (contract : ContractRef) : List Entry :=
  [.verified 0 SESSION .sessionOpened, .verified 1 1 (.drafted contract)]

/-- A draft that was held after an unclean shutdown, with the session then closed. -/
theorem held_draft_rests : let journal := uncleanJournal ⟨⟨GENESIS⟩, ⟨GENESIS⟩, 1⟩ ++
      [.verified 2 SESSION .sessionOpened, .verified 3 1 (.held .uncleanShutdown),
        .verified 4 SESSION .sessionClosed, .verified 5 SESSION .sessionOpened]
    accepts journal ∧ RestsAfterUncleanShutdown journal :=
  ⟨by decide, restsAfterUncleanShutdown (by decide)⟩

/-- An ended mission may have other records before it is held and resumed: a mission that was
stopped after an unclean shutdown takes a late answer's refusal. -/
theorem refusal_after_stop_not_atRest :
    ¬∀ entries, accepts entries → ∀ id before opening since entry rest,
      entries = before ++ opening :: (since ++ entry :: rest) →
      OpenedUncleanly id before opening → ¬ResumedAfterHold id since → entry.mission = id →
      ∃ m, missionAfter (before ++ opening :: since) id = some m ∧ m.state.atRest entry.event := by
  intro h
  let before := uncleanJournal ⟨⟨GENESIS⟩, ⟨GENESIS⟩, 1⟩
  let opening := Entry.verified 2 SESSION .sessionOpened
  let stop := Entry.verified 3 1 (.transition (.stop .owner))
  let refusal := Entry.verified 4 1 (.consentRefused .missionChanged)
  have hunclean : ¬ClosedCleanly before := by
    rintro ⟨earlier, closed, later, heq, hclosed, -⟩
    have hmem : closed ∈ before := by simp [heq]
    simp only [before, uncleanJournal, mem_cons, not_mem_nil, or_false] at hmem
    obtain rfl | rfl := hmem <;> cases hclosed
  have hopened : OpenedUncleanly 1 before opening :=
    ⟨rfl, hunclean, (missionAfter before 1).get (by decide), by simp, by decide, by decide⟩
  have hnot : ¬ResumedAfterHold 1 [stop] := by
    rintro ⟨_, held, _, _, _, heq, ⟨-, reason, hheld⟩, -⟩
    have hmem : held ∈ [stop] := by simp [heq]
    obtain rfl := mem_singleton.mp hmem
    cases hheld
  obtain ⟨m, -, hrest⟩ := h (before ++ opening :: ([stop] ++ refusal :: [])) (by decide) 1 before
    opening [stop] refusal [] rfl hopened hnot rfl
  cases hrest

end NexusOs.Mother
