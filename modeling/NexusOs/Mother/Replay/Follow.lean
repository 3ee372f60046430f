import NexusOs.Lib.History
import NexusOs.Lib.Transition
import NexusOs.Mother.Replay.Spec

/-!
# One mission through a journal

An accepted journal is a run of `replay`, one step for each entry. `Follows id` is what such a
step does to the mission `id`: a session record, its draft, an entry of its own, or an entry of
another mission. What is to be shown of a mission and the journal before it is shown by
`mission_induction`.
-/

namespace NexusOs.Mother

open Transition Fallible List

variable {entries later : List Entry} {id : MissionId} {m : Mission}
  {P : List Entry → Mission → Prop}

/-- One entry accepted by replay. -/
def Replays (r : Replayed) (entry : Entry) (r' : Replayed) : Prop := replay r entry = .ok r'

variable {r r' : Replayed}

theorem foldlM_replay_eq_ok : entries.foldlM replay r = .ok r' ↔ Run Replays r entries r' := by
  induction entries generalizing r with
  | nil => simp [pure, Except.pure, eq_comm]
  | cons entry entries ih => simp only [foldlM_cons, bind_eq_ok, ih, Run.cons_iff, Replays]

/-- The accepted journals are the runs of replay from nothing. -/
theorem replayAll_eq_ok :
    replayAll entries = .ok r ↔ Run Replays {} entries r := foldlM_replay_eq_ok

theorem accepts_iff : accepts entries ↔ ∃ r, replayAll entries = .ok r := by
  unfold accepts
  cases replayAll entries <;> simp [Except.toBool]

theorem missionAfter_eq_some :
    missionAfter entries id = some m ↔
      ∃ r, replayAll entries = .ok r ∧ r.missions[id]? = some m := by
  unfold missionAfter
  cases replayAll entries <;> simp

variable {before after : List Entry} {entry : Entry}

/-- An accepted journal splits at each of its entries. -/
theorem replayAll_append :
    replayAll (before ++ after) = .ok r ↔
      ∃ middle, replayAll before = .ok middle ∧ Run Replays middle after r := by
  simp only [replayAll_eq_ok, Run.append_iff]

theorem replayAll_snoc :
    replayAll (before ++ [entry]) = .ok r ↔
      ∃ middle, replayAll before = .ok middle ∧ replay middle entry = .ok r := by
  simp [replayAll_append, Replays]

/-- The missions before and after an entry of an accepted journal. -/
theorem accepts_append_cons (h : accepts (before ++ entry :: after)) :
    ∃ r r', replayAll before = .ok r ∧ replay r entry = .ok r' ∧
      replayAll (before ++ [entry]) = .ok r' := by
  obtain ⟨last, hlast⟩ := accepts_iff.mp h
  obtain ⟨r, hr, hrun⟩ := replayAll_append.mp hlast
  obtain ⟨r', hstep, -⟩ := Run.cons_iff.mp hrun
  exact ⟨r, r', hr, hstep, replayAll_snoc.mpr ⟨r, hr, hstep⟩⟩

/-- A mission of a map after one was put in. -/
theorem getElem?_insert_eq (missions : Missions) (id key : MissionId) (m : Mission) :
    (missions.insert id m)[key]? = if id = key then some m else missions[key]? := by
  simp only [Std.TreeMap.getElem?_insert, compare_eq_iff_eq]

/-- What replay can do with an entry. -/
theorem replay_cases (h : replay r entry = .ok r') :
    (entry.event = .sessionOpened ∧ entry.mission = SESSION ∧
      r' = { r with
        missions := r.missions.map fun _ m => m.reopened (r.session = .closed)
        session := .opened }) ∨
    (entry.event = .sessionClosed ∧ entry.mission = SESSION ∧ r.session = .opened ∧
      (∀ (id : MissionId) (m : Mission), r.missions[id]? = some m → m.refusesClose = false) ∧
      r' = { r with
        missions := r.missions.map fun _ m => m.invalidateCalls, session := .closed }) ∨
    (∃ contract, entry.event = .drafted contract ∧ r.session ≠ .closed ∧
      entry.mission = r.nextMission ∧ r.missions.size < MAX_MISSIONS ∧
      r' = { r with
        missions := r.missions.insert entry.mission { contractRef := contract }
        nextMission := entry.mission + 1 }) ∨
    (r.session ≠ .closed ∧ ∃ m m', r.missions[entry.mission]? = some m ∧
      replayMission m entry = .ok m' ∧
      r' = { r with missions := r.missions.insert entry.mission m' }) := by
  unfold replay at h
  split at h
  · rename_i hevent
    simp only [ite_error_eq_ok, not_not, Except.ok.injEq] at h
    refine .inl ⟨hevent, h.1, ?_⟩
    rw [← h.2]
    simp [Mission.reopened]
  · rename_i hevent
    simp only [ite_error_eq_ok, not_not, Except.ok.injEq] at h
    obtain ⟨hsession, hopen, hrefuses, rfl⟩ := h
    refine .inr (.inl ⟨hevent, hsession, hopen, ?_, rfl⟩)
    intro id m hm
    have hmem := Std.TreeMap.mem_toList_iff_getElem?_eq_some.mpr hm
    simp only [any_eq_true, not_exists, not_and, Bool.not_eq_true] at hrefuses
    exact hrefuses (id, m) hmem
  · rename_i contract hevent
    simp only [ite_error_eq_ok, not_not, Except.ok.injEq, not_le] at h
    obtain ⟨hopen, hnext, hsize, rfl⟩ := h
    exact .inr (.inr (.inl ⟨contract, hevent, hopen, hnext, hsize, rfl⟩))
  · rw [ite_error_eq_ok] at h
    obtain ⟨hopen, h⟩ := h
    split at h
    · cases h
    rename_i m hm
    obtain ⟨m', hm', h⟩ := bind_eq_ok.mp h
    simp only [pure, Except.pure, Except.ok.injEq] at h
    exact .inr (.inr (.inr ⟨hopen, m, m', hm, hm', h.symm⟩))

/-- Whether a record is one of a drafted mission: neither a session record nor a draft. -/
def Event.isOwn : Event → Bool
  | .sessionOpened | .sessionClosed | .drafted _ => false
  | _ => true

theorem Records.isOwn {m' : Mission} (h : Records m entry m') : entry.event.isOwn := by
  cases h <;> simp [Event.isOwn, *]

/-- An accepted entry of a drafted mission. -/
theorem replay_own (h : replay r entry = .ok r') (hown : entry.event.isOwn) :
    ∃ m m', r.missions[entry.mission]? = some m ∧ replayMission m entry = .ok m' ∧
      r' = { r with missions := r.missions.insert entry.mission m' } := by
  obtain ⟨hevent, -⟩ | ⟨hevent, -⟩ | ⟨contract, hevent, -⟩ | ⟨-, hmission⟩ := replay_cases h
  · simp [hevent, Event.isOwn] at hown
  · simp [hevent, Event.isOwn] at hown
  · simp [hevent, Event.isOwn] at hown
  · exact hmission

/-- What an accepted entry does to the mission `id`. -/
inductive Follows (id : MissionId) : Option Mission → Entry → Option Mission → Prop where
  | opened {before : Option Mission} {entry : Entry} (clean : Bool) :
      entry.event = .sessionOpened → entry.mission = SESSION →
      Follows id before entry (before.map (·.reopened clean))
  | closed {before : Option Mission} {entry : Entry} :
      entry.event = .sessionClosed → entry.mission = SESSION →
      (∀ m ∈ before, m.refusesClose = false) →
      Follows id before entry (before.map (·.invalidateCalls))
  | drafted {entry : Entry} {contract : ContractRef} :
      entry.mission = id → entry.event = .drafted contract →
      Follows id none entry (some { contractRef := contract })
  | own {entry : Entry} {m m' : Mission} :
      entry.mission = id → replayMission m entry = .ok m' → Follows id (some m) entry (some m')
  | other {before : Option Mission} {entry : Entry} :
      entry.mission ≠ id → Follows id before entry before

/-- The missions are those drafted so far, numbered below the next one. -/
def Replayed.Numbered (r : Replayed) : Prop :=
  0 < r.nextMission ∧
    ∀ (id : MissionId) (m : Mission), r.missions[id]? = some m → 0 < id ∧ id < r.nextMission

theorem Replayed.Numbered.step (hr : r.Numbered) (h : replay r entry = .ok r') : r'.Numbered := by
  obtain ⟨hpos, hids⟩ := hr
  obtain ⟨-, -, rfl⟩ | ⟨-, -, -, -, rfl⟩ | ⟨contract, -, -, hnext, -, rfl⟩ |
      ⟨-, m, m', hm, -, rfl⟩ := replay_cases h
  · refine ⟨hpos, fun id m hm => ?_⟩
    obtain ⟨m, hm, -⟩ := by simpa using hm
    exact hids id m hm
  · refine ⟨hpos, fun id m hm => ?_⟩
    obtain ⟨m, hm, -⟩ := by simpa using hm
    exact hids id m hm
  · refine ⟨Nat.succ_pos _, fun id m hm => ?_⟩
    rw [getElem?_insert_eq] at hm
    split at hm
    · rename_i heq
      exact heq ▸ ⟨hnext ▸ hpos, Nat.lt_succ_self _⟩
    · obtain ⟨hid, hlt⟩ := hids id m hm
      exact ⟨hid, (hnext ▸ hlt).trans (Nat.lt_succ_self _)⟩
  · refine ⟨hpos, fun id n hn => ?_⟩
    rw [getElem?_insert_eq] at hn
    split at hn
    · rename_i heq
      exact heq ▸ hids _ m hm
    · exact hids id n hn

theorem numbered (h : replayAll entries = .ok r) : r.Numbered := by
  refine (replayAll_eq_ok.mp h).invariant .step ?_
  simp [Replayed.Numbered]

/-- An accepted entry does to each mission what `Follows` says. -/
theorem follows_of_replay (hr : r.Numbered) (h : replay r entry = .ok r')
    (id : MissionId) : Follows id r.missions[id]? entry r'.missions[id]? := by
  obtain ⟨hevent, hmission, rfl⟩ | ⟨hevent, hmission, -, hrefuses, rfl⟩ |
      ⟨contract, hevent, -, hnext, -, rfl⟩ | ⟨-, m, m', hm, hm', rfl⟩ := replay_cases h
  · rw [Std.TreeMap.getElem?_map]
    exact .opened _ hevent hmission
  · rw [Std.TreeMap.getElem?_map]
    exact .closed hevent hmission (hrefuses id)
  · rw [getElem?_insert_eq]
    split
    · rename_i heq
      -- The number is new, so the draft replaces no mission.
      have hnew : r.missions[id]? = none := by
        by_contra hsome
        obtain ⟨m, hm⟩ := Option.ne_none_iff_exists'.mp hsome
        have hlt := (hr.2 id m hm).2
        rw [← hnext, heq] at hlt
        exact hlt.false
      rw [hnew]
      exact .drafted heq hevent
    · exact .other ‹_›
  · rw [getElem?_insert_eq]
    split
    · rename_i heq
      subst heq
      rw [hm]
      exact .own rfl hm'
    · exact .other ‹_›

/-- An accepted entry of a mission that exists is one of its records. -/
theorem replayMission_of_replay (hr : replayAll entries = .ok r)
    (hm : r.missions[entry.mission]? = some m) (h : replay r entry = .ok r') :
    ∃ m', replayMission m entry = .ok m' ∧ r'.missions[entry.mission]? = some m' := by
  have hid : entry.mission ≠ SESSION := Nat.ne_of_gt ((numbered hr).2 _ m hm).1
  have hfollows := follows_of_replay (numbered hr) h entry.mission
  rw [hm] at hfollows
  generalize r'.missions[entry.mission]? = new at hfollows
  cases hfollows with
  | opened _ _ hsession | closed _ hsession => exact absurd hsession hid
  | own _ hreplay => exact ⟨_, hreplay, rfl⟩
  | other hother => exact absurd rfl hother

/-- A mission that is not drafted has no entry. -/
theorem mission_ne_of_getElem?_eq_none (h : replayAll entries = .ok r) (hid : id ≠ SESSION)
    (hnone : r.missions[id]? = none) : ∀ entry ∈ entries, entry.mission ≠ id := by
  induction entries using List.reverseRecOn generalizing r with
  | nil => simp
  | append_singleton before entry ih =>
    obtain ⟨middle, hmiddle, hstep⟩ := replayAll_snoc.mp h
    have hfollows := follows_of_replay (numbered hmiddle) hstep id
    rw [hnone] at hfollows
    generalize hold : middle.missions[id]? = old at hfollows
    generalize hnew : none = new at hfollows
    have hentry : old = none ∧ entry.mission ≠ id := by
      cases hfollows with
      | opened clean hevent hsession | closed hevent hsession =>
        exact ⟨Option.map_eq_none_iff.mp hnew.symm, fun h => hid (h.symm.trans hsession)⟩
      | drafted | own => cases hnew
      | other hother => exact ⟨hnew.symm, hother⟩
    intro e he
    rcases mem_append.mp he with he | he
    · exact ih hmiddle (hold.trans hentry.1) e he
    · exact mem_singleton.mp he ▸ hentry.2

/-- What holds of a mission and the journal before it, shown entry by entry: `P` holds of a new
mission and is kept by every accepted entry. The step also has the journal it belongs to. -/
theorem mission_induction
    (drafted : ∀ {before entry contract}, (∀ e ∈ before, e.mission ≠ id) → entry.mission = id →
      entry.event = .drafted contract → P (before ++ [entry]) { contractRef := contract })
    (session : ∀ {before entry m mustHold}, P before m → m.Obliged mustHold →
      entry.event = .sessionOpened ∨ entry.event = .sessionClosed →
      P (before ++ [entry]) { m with laneCalls := none, callAccounting := none, mustHold })
    (own : ∀ {before entry after r m m'}, entries = before ++ entry :: after →
      replayAll before = .ok r → r.missions[id]? = some m → P before m → entry.mission = id →
      replayMission m entry = .ok m' → P (before ++ [entry]) m')
    (other : ∀ {before entry m}, P before m → entry.mission ≠ id → P (before ++ [entry]) m)
    (h : replayAll entries = .ok r) (hm : r.missions[id]? = some m) : P entries m := by
  -- The induction is on a prefix of the journal, so that `own` can speak of the whole of it.
  suffices hprefix : ∀ before after, entries = before ++ after → ∀ r, replayAll before = .ok r →
      ∀ m, r.missions[id]? = some m → P before m from
    hprefix entries [] (by simp) r h m hm
  intro before
  induction before using List.reverseRecOn with
  | nil =>
    intro after _ r hr m hm
    obtain rfl : r = {} := by simpa [replayAll_eq_ok] using hr
    simp at hm
  | append_singleton before entry ih =>
    intro after hentries r' hr' m' hm'
    obtain ⟨r, hr, hstep⟩ := replayAll_snoc.mp hr'
    have hentries : entries = before ++ entry :: after := by simpa using hentries
    have ih := ih _ hentries r hr
    have hfollows := follows_of_replay (numbered hr) hstep id
    generalize hold : r.missions[id]? = old at hfollows
    rw [hm'] at hfollows
    generalize hnew : some m' = new at hfollows
    cases hfollows with
    | opened clean hevent =>
      obtain ⟨m, rfl, rfl⟩ := Option.map_eq_some_iff.mp hnew.symm
      obtain ⟨mustHold, hobliged, heq⟩ := m.reopened_eq clean
      rw [heq]
      exact session (ih m hold) hobliged (.inl hevent)
    | closed hevent =>
      obtain ⟨m, rfl, rfl⟩ := Option.map_eq_some_iff.mp hnew.symm
      exact session (ih m hold) (.inl rfl) (.inr hevent)
    | drafted hmission hevent =>
      obtain rfl := Option.some.inj hnew
      have hid : id ≠ SESSION := Nat.ne_of_gt ((numbered hr').2 id _ hm').1
      exact drafted (mission_ne_of_getElem?_eq_none hr hid hold) hmission hevent
    | own hmission hreplay =>
      obtain rfl := Option.some.inj hnew
      exact own hentries hr hold (ih _ hold) hmission hreplay
    | other hmission => exact other (ih m' (hold.trans hnew.symm)) hmission

/-- What every record of a mission and every session record keep holds of every mission. -/
theorem mission_invariant {P : Mission → Prop} (new : ∀ contract, P { contractRef := contract })
    (session : ∀ {m mustHold}, P m → m.Obliged mustHold →
      P { m with laneCalls := none, callAccounting := none, mustHold })
    (step : ∀ {m entry m'}, P m → Records m entry m' → P m') (h : replayAll entries = .ok r)
    (hm : r.missions[id]? = some m) : P m :=
  mission_induction (P := fun _ m => P m) (fun _ _ _ => new _)
    (fun hm hobliged _ => session hm hobliged)
    (fun _ _ _ hm _ hreplay => step hm (records_of_replayMission hreplay)) (fun hm _ => hm) h hm

/-- What holds of a mission and the entries since some point of the journal, shown entry by
entry. -/
theorem mission_run {start : List Entry} (hstart : replayAll start = .ok r)
    (hm : r.missions[id]? = some m) (init : P [] m)
    (session : ∀ {later entry m mustHold}, P later m → m.Obliged mustHold →
      P (later ++ [entry]) { m with laneCalls := none, callAccounting := none, mustHold })
    (own : ∀ {later entry m m'}, P later m → entry.mission = id → replayMission m entry = .ok m' →
      P (later ++ [entry]) m')
    (other : ∀ {later entry m}, P later m → entry.mission ≠ id → P (later ++ [entry]) m)
    (hrun : Run Replays r later r') : ∃ m', r'.missions[id]? = some m' ∧ P later m' := by
  induction later using List.reverseRecOn generalizing r' with
  | nil =>
    obtain rfl := Run.nil_iff.mp hrun
    exact ⟨m, hm, init⟩
  | append_singleton later entry ih =>
    obtain ⟨middle, hlater, hstep⟩ := Run.append_iff.mp hrun
    obtain ⟨m', hm', hP⟩ := ih hlater
    have hmiddle : replayAll (start ++ later) = .ok middle :=
      replayAll_append.mpr ⟨r, hstart, hlater⟩
    have hstep : replay middle entry = .ok r' := by simpa [Replays] using hstep
    have hfollows := follows_of_replay (numbered hmiddle) hstep id
    rw [hm'] at hfollows
    generalize r'.missions[id]? = new at hfollows
    cases hfollows with
    | opened clean =>
      obtain ⟨mustHold, hobliged, heq⟩ := m'.reopened_eq clean
      exact ⟨_, congrArg some heq, session hP hobliged⟩
    | closed => exact ⟨_, rfl, session hP (.inl rfl)⟩
    | own hmission hreplay => exact ⟨_, rfl, own hP hmission hreplay⟩
    | other hmission => exact ⟨_, rfl, other hP hmission⟩

/-- A field that no session record and none of the mission's later records changes keeps its
value. -/
theorem kept_since {β : Type} {f : Mission → β}
    (hm : missionAfter before id = some m) (haccepts : accepts (before ++ later))
    (hsession : ∀ (m : Mission) mustHold,
      f { m with laneCalls := none, callAccounting := none, mustHold } = f m)
    (hrecord : ∀ {n entry n'}, entry ∈ later → entry.mission = id → f n = f m →
      replayMission n entry = .ok n' → f n' = f m) :
    ∃ m', missionAfter (before ++ later) id = some m' ∧ f m' = f m := by
  obtain ⟨r, hr, hm⟩ := missionAfter_eq_some.mp hm
  obtain ⟨last, hlast⟩ := accepts_iff.mp haccepts
  obtain ⟨r₀, hr₀, hrun⟩ := replayAll_append.mp hlast
  obtain rfl : r = r₀ := Except.ok.inj (hr.symm.trans hr₀)
  obtain ⟨m', hm', hkept⟩ :=
    mission_run (P := fun since m' => (∀ entry ∈ since, entry ∈ later) → f m' = f m) hr hm
      (fun _ => rfl)
      (fun h _ hsub => (hsession _ _).trans (h fun e he => hsub e (by simp [he])))
      (fun h hid hreplay hsub =>
        hrecord (hsub _ (by simp)) hid (h fun e he => hsub e (by simp [he])) hreplay)
      (fun h _ hsub => h fun e he => hsub e (by simp [he])) hrun
  exact ⟨m', missionAfter_eq_some.mpr ⟨last, hlast, hm'⟩, hkept fun _ he => he⟩

/-- Every entry of a drafted mission meets `check`, made on the journal before the entry and the
mission that journal leaves. -/
def EachEntry (check : List Entry → Mission → Entry → Bool) (entries : List Entry) : Prop :=
  ∀ before entry after, entries = before ++ entry :: after →
    (missionAfter before entry.mission).all fun m => check before m entry

instance (check : List Entry → Mission → Entry → Bool) (entries : List Entry) :
    Decidable (EachEntry check entries) :=
  decidable_of_iff _ History.forall_split_iff.symm

namespace EachEntry

variable {check : List Entry → Mission → Entry → Bool} {before after : List Entry} {entry : Entry}

theorem of_append (h : EachEntry check (before ++ after)) : EachEntry check before := by
  rintro earlier entry later rfl
  exact h earlier entry (later ++ after) (by simp)

/-- The check of an entry of a mission. -/
theorem mission (h : EachEntry check (before ++ entry :: after)) (hr : replayAll before = .ok r)
    (hm : r.missions[entry.mission]? = some m) : check before m entry := by
  have hcheck := h before entry after rfl
  rwa [missionAfter_eq_some.mpr ⟨r, hr, hm⟩] at hcheck

end EachEntry

end NexusOs.Mother
