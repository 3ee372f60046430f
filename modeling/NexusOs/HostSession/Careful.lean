import NexusOs.HostSession.Session

/-!
# What the operations do to the word

Every exchange of the session word is one of the updates of its kind (`Change.Allowed`), and a scope
that is not for closing has the word that its request read (`Careful`). The operations, or parts of
them, that do so whatever they read and stay clear of the lock and of the end of the session are
`Tame`.
-/

namespace NexusOs.HostSession

open Utf8 Evidence Threads

/-- The updates of the word, by what they are for. -/
def Change.Allowed : Change → Word → Word → Prop
  | .emergency, old, new => old &&& Mask.sealed = 0 ∧ epoch old < maxEpoch ∧ new = emergencyNext old
  | .fail, old, new => old &&& Mask.sealed = 0 ∧ old &&& Mask.failed = 0 ∧ new = old ||| Mask.failed
  | .close, old, new =>
    old &&& Mask.sealed = 0 ∧ old &&& Mask.closing = 0 ∧ new = old ||| Mask.closing
  | .latch tag urgent, old, new => latchNext tag.bits urgent old = some new
  | .ready, old, new => old = 0 ∧ new = Mask.ready
  | .admission _ scope, old, new => new = old ∧ scope.same old = true ∧ scope.fits = true
  | .register, old, new => new = old ∧ old &&& Mask.sealed = 0
  | .sealing, old, new => old &&& (Mask.failed ||| Mask.sealed) = 0 ∧ new = sealNext old
  | .finish success, old, new => new = finishNext success old

/-- An action that does to the word and the scopes what it may: `known` are the scopes the call was
given, `read` the words it read at first. -/
def Careful (known : Nat → RequestScope → Prop) (read : Word → Prop) : Action → Prop
  | .exchange why old new =>
    why.Allowed old new ∧ ∀ number scope, why = .admission number scope → known number scope
  | .newScope scope => scope.kind ≠ .closeCleanup → read scope.snapshot
  | _ => True

variable {known : Nat → RequestScope → Prop} {read : Word → Prop} {α : Type}

/-- The exchanges that neither seal nor finish. -/
def Change.plain : Change → Bool
  | .sealing | .finish _ => false
  | _ => true

/-- The actions that neither take part in the end of the session nor touch the lock and what it
guards, nor take a stop. -/
def Action.plain : Action → Bool
  | .exchange why _ _ => why.plain
  | .lock | .tryLock | .unlock | .poison | .writeProducers _ | .takeStop => false
  | .storeFinal field status => field == .delivery || status != .recorded
  | .exchangeFinal _ _ new => new != .recorded
  | _ => true

/-- A careful action that is plain. -/
def Tame (known : Nat → RequestScope → Prop) (read : Word → Prop) (a : Action) : Prop :=
  Careful known read a ∧ a.plain = true

/-- A program of tame actions. -/
abbrev TameProg (known : Nat → RequestScope → Prop) (read : Word → Prop) (p : P α) : Prop :=
  p.All (Tame known read) fun _ => True

variable {a : Action}

theorem tame_act (h : Careful known read a) (hplain : a.plain = true) :
    TameProg known read (act a) :=
  .perform ⟨h, hplain⟩ fun _ => trivial

theorem tame_pure (a : α) : TameProg known read (pure a) := .pure trivial

theorem tame_spinning : TameProg known read (spinning : P α) := ⟨⟨trivial, rfl⟩, fun r => r.elim⟩

section

variable {why : Change} {rounds : Nat} {Q : Action → Prop} {old new : Word}

/-- The loop of an update reads the word, and tries what it is for. -/
theorem all_update {f : Word → Option Word} (hload : Q .load) (hspin : Q .spin)
    (hf : ∀ {old new}, f old = some new → Q (.exchange why old new)) :
    (update why f rounds).All Q fun _ => True := by
  refine .bind (.perform hload (Q := fun _ => True) fun _ => trivial) fun previous _ => ?_
  induction rounds generalizing previous with
  | zero => exact ⟨hspin, fun r => r.elim⟩
  | succ rounds ih =>
    rw [fetchUpdate]
    split
    · exact .pure trivial
    rename_i next hnext
    refine .bind (.perform (hf hnext) (Q := fun _ => True) fun _ => trivial) fun r _ => ?_
    split
    · exact .pure trivial
    · exact ih _

theorem all_sessionCompare (hload : Q .load) (hspin : Q .spin) (h : Q (.exchange why old new)) :
    (sessionCompare why old new rounds).All Q fun _ => True := by
  refine all_update hload hspin fun {word next} hnext => ?_
  simp only [Option.ite_none_right_eq_some, Option.some.injEq] at hnext
  obtain ⟨rfl, rfl⟩ := hnext
  exact h

theorem tame_sessionCompare (h : why.Allowed old new)
    (hadmitted : ∀ number scope, why = .admission number scope → known number scope)
    (hplain : why.plain = true) : TameProg known read (sessionCompare why old new rounds) :=
  all_sessionCompare ⟨trivial, rfl⟩ ⟨trivial, rfl⟩ ⟨⟨h, hadmitted⟩, hplain⟩

end

section

variable {rounds : Nat} {left number : Nat} {scope : RequestScope}
  (event : IngressEvent) (request : SessionRequest)

theorem tame_latch (tag : HaltTag) (urgent : Bool) :
    TameProg known read (latch tag urgent rounds) :=
  .last (all_update ⟨trivial, rfl⟩ ⟨trivial, rfl⟩ fun h => ⟨⟨h, nofun⟩, rfl⟩)

theorem tame_failLoop : TameProg known read (failLoop rounds left) := by
  induction left with
  | zero => exact tame_spinning
  | succ left ih =>
    refine .ask ⟨trivial, rfl⟩ fun old hopen => ?_
    rw [not_or, not_not, not_not] at hopen
    refine .seq (tame_sessionCompare ⟨hopen.1, hopen.2, rfl⟩ nofun rfl) fun r => ?_
    split
    · exact .act ⟨trivial, rfl⟩ fun _ => .last (tame_act trivial rfl)
    · exact ih

theorem tame_fail : TameProg known read (fail rounds) := by
  refine .ask ⟨trivial, rfl⟩ fun word _ => ?_
  exact tame_failLoop

theorem tame_failSession : TameProg known read (failSession rounds) := by
  refine .act ⟨trivial, rfl⟩ fun there => ?_
  split
  · exact tame_fail
  · exact tame_pure _

theorem tame_closingLoop (current : Word) :
    TameProg known read (closingLoop rounds left current) := by
  induction left generalizing current with
  | zero => exact tame_spinning
  | succ left ih =>
    refine .guard trivial fun hopen => ?_
    refine .guard trivial fun hclosing => ?_
    refine .seq (tame_sessionCompare
      ⟨not_not.mp hopen, not_not.mp hclosing, rfl⟩ nofun rfl) fun r => ?_
    split
    · exact .pure trivial
    exact ih _

theorem tame_acceptAt (kind : CommandKind) (sequence : Nat) {snapshot : Word} (h : read snapshot) :
    TameProg known read (acceptAt kind sequence rounds snapshot) := by
  refine .guard trivial fun _ => ?_
  split
  · exact .last tame_fail
  refine .ask ⟨trivial, rfl⟩ fun taken _ => ?_
  refine .guard trivial fun _ => ?_
  refine .seq ?_ fun target => ?_
  · unfold loadTarget
    split
    · exact tame_act trivial rfl
    · exact tame_act trivial rfl
    · exact tame_pure _
  · split
    · refine .act ⟨trivial, rfl⟩ fun close => ?_
      refine .seq (tame_closingLoop _) fun closed => ?_
      split
      · exact .pure trivial
      exact .last (tame_act (fun hkind => absurd rfl hkind) rfl)
    · split
      · exact tame_pure _
      · split
        · exact tame_pure _
        · exact .last (tame_act (fun _ => h) rfl)

/-- An eligible scope has a snapshot that fits. -/
theorem all_eligible (number : Nat) (scope : RequestScope) :
    (eligible number scope).All (Tame known read) fun ok => ok = true → scope.fits = true :=
  .bind (tame_act trivial rfl) fun ended _ => .pure fun h => by
    rw [Bool.and_eq_true] at h
    exact h.2

theorem all_live (number : Nat) (scope : RequestScope) (word : Word) :
    (live number scope word).All (Tame known read) fun ok =>
      ok = true → scope.same word = true ∧ scope.fits = true := by
  rw [live]
  split
  · rename_i hsame
    exact .bind (all_eligible number scope) fun ok hfits => .pure fun hok => ⟨hsame, hfits hok⟩
  · exact .pure (by simp)

theorem tame_admitAt {expected : Word} (hknown : known number scope)
    (hsame : scope.same expected = true) (hfits : scope.fits = true) :
    TameProg known read (admitAt number scope expected rounds) := by
  refine .seq (tame_sessionCompare ⟨rfl, hsame, hfits⟩ ?_ rfl) fun r => ?_
  · intro number' scope' heq
    cases heq
    exact hknown
  · split <;> exact tame_pure _

theorem tame_admitScope (hknown : known number scope) :
    TameProg known read (admitScope number scope rounds) := by
  refine .bind (all_eligible number scope) fun ok hfits => ?_
  refine .guard trivial fun hok => ?_
  have hfits := hfits (by simpa using hok)
  refine .act ⟨trivial, rfl⟩ fun taken => ?_
  split
  · exact .last tame_failSession
  split
  · refine .act ⟨trivial, rfl⟩ fun current => ?_
    refine .bind (all_live number scope current) fun alive hlive => ?_
    refine .guard trivial fun halive => ?_
    exact tame_admitAt hknown (hlive (by simpa using halive)).1 hfits
  · rename_i hkind
    refine tame_admitAt hknown ?_ hfits
    rw [RequestScope.same]
    split
    · rename_i hclose
      exact absurd hclose hkind
    · simp

theorem tame_readyLocked : TameProg known read (readyLocked rounds) := by
  refine .ask ⟨trivial, rfl⟩ fun model _ => ?_
  refine .seq (tame_sessionCompare ⟨rfl, rfl⟩ nofun rfl) fun r => ?_
  split <;> exact tame_pure _

theorem tame_findSlot : TameProg known read (findSlot event) := by
  refine .ask ⟨trivial, rfl⟩ fun next _ => ?_
  refine .guard trivial fun _ => ?_
  exact .last (tame_act trivial rfl)

theorem tame_dropWorker (index : Nat) (finished : Bool) :
    TameProg known read (dropWorker index finished rounds) := by
  rw [dropWorker]
  split
  · exact .act ⟨trivial, rfl⟩ fun _ => .seq tame_fail fun _ => tame_act trivial rfl
  · exact tame_act trivial rfl

theorem tame_recordReceipt (native : NativeStop) :
    TameProg known read (recordReceipt event native rounds) := by
  refine .act ⟨trivial, rfl⟩ fun snapshot => ?_
  refine .act ⟨trivial, rfl⟩ fun set => ?_
  split
  · exact .last (tame_dropWorker ..)
  refine .act ⟨trivial, rfl⟩ fun _ => ?_
  split
  · exact .seq tame_fail fun _ => .last (tame_dropWorker ..)
  · exact .last (tame_dropWorker ..)

theorem tame_recordStop : TameProg known read (recordStop event rounds) := by
  refine .ask ⟨trivial, rfl⟩ fun word _ => ?_
  refine .seq (tame_findSlot event) fun found => ?_
  refine .guard trivial fun _ => ?_
  refine .act ⟨trivial, rfl⟩ fun phase => ?_
  split
  · refine .act ⟨trivial, rfl⟩ fun receipt => ?_
    split <;> exact tame_pure _
  refine .ask ⟨trivial, rfl⟩ fun phase _ => ?_
  refine .ask ⟨trivial, rfl⟩ fun worker _ => ?_
  refine .act ⟨trivial, rfl⟩ fun taken => ?_
  split
  · exact .last (tame_act trivial rfl)
  refine .act ⟨trivial, rfl⟩ fun native => ?_
  split
  · exact .last (tame_recordReceipt ..)
  · exact .last (tame_dropWorker ..)

theorem tame_stopSpawnFailed : TameProg known read (stopSpawnFailed event rounds) := by
  refine .ask ⟨trivial, rfl⟩ fun word _ => ?_
  refine .seq (tame_findSlot event) fun found => ?_
  refine .guard trivial fun _ => ?_
  refine .ask ⟨trivial, rfl⟩ fun taken _ => ?_
  exact .last tame_fail

theorem tame_closeRequest : TameProg known read (closeRequest request) := by
  refine .guard trivial fun _ => ?_
  refine .ask ⟨trivial, rfl⟩ fun close _ => ?_
  refine .ask ⟨trivial, rfl⟩ fun passed _ => ?_
  exact .last (tame_act trivial rfl)

theorem tame_sealLive : TameProg known read sealLive := by
  refine .ask ⟨trivial, rfl⟩ fun passed _ => ?_
  exact .last (tame_act trivial rfl)

theorem tame_beginMotherEnd : TameProg known read beginMotherEnd := by
  refine .seq tame_sealLive fun live => ?_
  refine .guard trivial fun _ => ?_
  refine .act ⟨trivial, rfl⟩ fun taken => ?_
  split <;> exact tame_pure _

end

end NexusOs.HostSession
