import NexusOs.Lib.Transition

/-!
# Threads over shared memory

Programs of atomic actions, any number of calls of them interleaved action by action, and
rely-guarantee reasoning about them. A `Contract` says what holds of the shared memory, what a
call may rely on between two of its actions and what each action guarantees; `Holds` is the
weakest precondition of a program under a contract, and `Honoured.reached` and
`Honoured.guaranteed` carry it over to every run.

The events of a run so far are a part of every moment, so that a contract may speak of them.
-/

namespace NexusOs.Threads

open Transition

variable {A : Type} {R : A → Type} {S Op α β : Type}

/-! ## Programs -/

/-- A program of actions; the answer to an action `a` is in `R a`. -/
inductive Prog (R : A → Type) (α : Type) : Type where
  | done (result : α)
  | step (action : A) (next : R action → Prog R α)

variable {a : A} {p : Prog R α}

namespace Prog

protected def bind (p : Prog R α) (f : α → Prog R β) : Prog R β :=
  match p with
  | .done a => f a
  | .step a next => .step a fun r => (next r).bind f

instance : Monad (Prog R) where
  pure := .done
  bind := Prog.bind

/-- The program of one action. -/
def perform (a : A) : Prog R (R a) := .step a .done

/-- Every action that a program may come to is in `P` and every result in `Q`, whatever the answers
are. -/
def All (P : A → Prop) (Q : α → Prop) : Prog R α → Prop
  | .done a => Q a
  | .step a next => P a ∧ ∀ r, (next r).All P Q

variable {P P' : A → Prop} {Q Q' : α → Prop} {Q'' : β → Prop}

theorem All.pure {a : α} (h : Q a) : (Pure.pure a : Prog R α).All P Q := h

theorem All.perform {Q : R a → Prop} (h : P a) (hQ : ∀ r, Q r) :
    (perform a : Prog R (R a)).All P Q := ⟨h, hQ⟩

variable {f : α → Prog R β}

theorem All.bind (h : p.All P Q) (h' : ∀ a, Q a → (f a).All P Q'') : (p >>= f).All P Q'' := by
  induction p with
  | done a => exact h' a h
  | step a next ih => exact ⟨h.1, fun r => ih r (h.2 r)⟩

/-- One program after another, whatever the first results in. -/
theorem All.seq (h : p.All P fun _ => True) (h' : ∀ a, (f a).All P Q'') :
    (p >>= f).All P Q'' := h.bind fun a _ => h' a

/-- An action, and what follows its answer. -/
theorem All.act {f : R a → Prog R β} (h : P a) (h' : ∀ r, (f r).All P Q'') :
    (Prog.perform a >>= f).All P Q'' := ⟨h, h'⟩

/-- A result on a condition, and the rest of a program. -/
theorem All.guard {c : Prop} [Decidable c] {a : α} (ha : Q a) (h : ¬c → p.All P Q) :
    (if c then Pure.pure a else p).All P Q := by
  split
  · exact ha
  · exact h ‹_›

/-- An action, a result on a condition on its answer, and the rest of a program. -/
theorem All.ask {c : R a → Prop} [∀ r, Decidable (c r)] {b : R a → β} {f : R a → Prog R β}
    (h : P a) (hf : ∀ r, ¬c r → (f r).All P fun _ => True) :
    (Prog.perform a >>= fun r => if c r then Pure.pure (b r) else f r).All P fun _ => True :=
  .act h fun r => .guard trivial (hf r)

/-- A program, and what its result is returned as. -/
theorem All.last {f : α → β} (h : p.All P fun _ => True) :
    (p >>= fun a => Pure.pure (f a)).All P fun _ => True := h.seq fun _ => trivial

end Prog

/-! ## Runs -/

/-- What happens: a call begins, acts or returns. Calls are numbered in the order they begin. -/
inductive Event (R : A → Type) (Op α : Type) where
  | call (thread : Nat) (op : Op)
  | act (thread : Nat) (action : A) (answer : R action)
  | ret (thread : Nat) (op : Op) (result : α)

/-- The call that an event is of. -/
def Event.thread : Event R Op α → Nat
  | .call thread _ => thread
  | .act thread _ _ => thread
  | .ret thread _ _ => thread

/-- A memory with operations on it: the program of each, when one may begin, what its actions do
to the memory, and what becomes of its result. -/
structure Machine (R : A → Type) (S Op α : Type) where
  program : Op → Prog R α
  begins : S → Op → S → Prop
  performs : Nat → S → (a : A) → R a → S → Prop
  delivers : S → Op → α → S → Prop

/-- What an event does to the memory. -/
def Machine.does (m : Machine R S Op α) (s : S) : Event R Op α → S → Prop
  | .call _ op, s' => m.begins s op s'
  | .act t a r, s' => m.performs t s a r s'
  | .ret _ op result, s' => m.delivers s op result s'

/-- The memory, and all that has happened. -/
structure Moment (R : A → Type) (S Op α : Type) where
  shared : S
  events : List (Event R Op α)

/-- The moment after an event. -/
def Moment.after (x : Moment R S Op α) (shared : S) (e : Event R Op α) : Moment R S Op α :=
  ⟨shared, x.events ++ [e]⟩

/-- A moment, and what is left of each call. -/
structure State (R : A → Type) (S Op α : Type) where
  now : Moment R S Op α
  calls : List (Op × Option (Prog R α))

/-- The state before any call. -/
def State.initial (shared : S) : State R S Op α := ⟨⟨shared, []⟩, []⟩

/-- A step of the machine. -/
inductive Step (m : Machine R S Op α) : State R S Op α → Event R Op α → State R S Op α → Prop where
  | call {s : State R S Op α} {op : Op} {shared : S} : m.begins s.now.shared op shared →
      Step m s (.call s.calls.length op)
        ⟨s.now.after shared (.call s.calls.length op), s.calls ++ [(op, some (m.program op))]⟩
  | act {s : State R S Op α} {t : Nat} {op : Op} {a : A} {next : R a → Prog R α} {r : R a}
      {shared : S} : s.calls[t]? = some (op, some (.step a next)) →
      m.performs t s.now.shared a r shared →
      Step m s (.act t a r) ⟨s.now.after shared (.act t a r), s.calls.set t (op, some (next r))⟩
  | ret {s : State R S Op α} {t : Nat} {op : Op} {result : α} {shared : S} :
      s.calls[t]? = some (op, some (.done result)) → m.delivers s.now.shared op result shared →
      Step m s (.ret t op result) ⟨s.now.after shared (.ret t op result), s.calls.set t (op, none)⟩

/-- What holds at every moment, what call `t` may rely on while others act, and what events
guarantee. -/
structure Contract (R : A → Type) (S Op α : Type) where
  inv : Moment R S Op α → Prop
  rely : Nat → Moment R S Op α → Moment R S Op α → Prop
  guar : Moment R S Op α → Event R Op α → Moment R S Op α → Prop
  refl : ∀ t x, rely t x x
  trans : ∀ {t x y z}, rely t x y → rely t y z → rely t x z
  keeps : ∀ {x e y}, inv x → guar x e y → inv y
  others : ∀ {t x e y}, inv x → guar x e y → e.thread ≠ t → rely t x y

section

variable (m : Machine R S Op α) (c : Contract R S Op α) (t : Nat)

/-- Call `t`, with this program left, keeps the guarantee and ends as `post` says. -/
def Holds : Prog R β → (β → Moment R S Op α → Prop) → Moment R S Op α → Prop
  | .done b, post, x => post b x
  | .step a next, post, x => ∀ y r shared, c.rely t x y → c.inv y →
      m.performs t y.shared a r shared →
      c.guar y (.act t a r) (y.after shared (.act t a r)) ∧
        Holds (next r) post (y.after shared (.act t a r))

/-- What a call owes when it returns. -/
def Returns (op : Op) (result : α) (x : Moment R S Op α) : Prop :=
  ∀ y shared, c.rely t x y → c.inv y → m.delivers y.shared op result shared →
    c.guar y (.ret t op result) (y.after shared (.ret t op result))

end

/-- Every operation that begins keeps the contract. -/
def Honoured (m : Machine R S Op α) (c : Contract R S Op α) : Prop :=
  ∀ t x op shared, c.inv x → m.begins x.shared op shared →
    c.guar x (.call t op) (x.after shared (.call t op)) ∧
      Holds m c t (m.program op) (Returns m c t op) (x.after shared (.call t op))

/-! ## Rules -/

variable {op : Op} {result : α}

section

variable {m : Machine R S Op α} {c : Contract R S Op α} {t : Nat} {x y : Moment R S Op α} {γ : Type}
  {b : β} {post : β → Moment R S Op α → Prop}

theorem Holds.pure (h : post b x) : Holds m c t (Pure.pure b) post x := h

theorem Holds.bind {p : Prog R γ} {f : γ → Prog R β}
    (h : Holds m c t p (fun b y => Holds m c t (f b) post y) x) : Holds m c t (p >>= f) post x := by
  induction p generalizing x with
  | done b => exact h
  | step a next ih =>
    intro y r shared hrely hinv hperforms
    obtain ⟨hguar, hrest⟩ := h y r shared hrely hinv hperforms
    exact ⟨hguar, ih r hrest⟩

/-- A result on a condition, and the rest of a program. -/
theorem Holds.guard {cond : Prop} [Decidable cond] {p : Prog R β} (hb : post b x)
    (h : ¬cond → Holds m c t p post x) : Holds m c t (if cond then Pure.pure b else p) post x := by
  split
  · exact hb
  · exact h ‹_›

/-- One action. -/
theorem Holds.perform {post : R a → Moment R S Op α → Prop}
    (h : ∀ y r shared, c.rely t x y → c.inv y → m.performs t y.shared a r shared →
      c.guar y (.act t a r) (y.after shared (.act t a r)) ∧ post r (y.after shared (.act t a r))) :
    Holds m c t (Prog.perform a) post x := h

theorem Holds.mono {p : Prog R β} {post' : β → Moment R S Op α → Prop} (h : Holds m c t p post x)
    (himp : ∀ b y, post b y → post' b y) : Holds m c t p post' x := by
  induction p generalizing x with
  | done b => exact himp b x h
  | step a next ih =>
    intro y r shared hrely hinv hperforms
    obtain ⟨hguar, hrest⟩ := h y r shared hrely hinv hperforms
    exact ⟨hguar, ih r hrest⟩

/-- What others do keeps what is left of a call. -/
theorem Holds.rely {p : Prog R β} (h : Holds m c t p post x) (hrely : c.rely t x y)
    (hpost : ∀ b, post b x → post b y) : Holds m c t p post y := by
  cases p with
  | done b => exact hpost b h
  | step a next =>
    intro z r shared hrely' hinv hperforms
    exact h z r shared (c.trans hrely hrely') hinv hperforms

/-- A program whose actions all keep what is known of the moment, and their guarantee. -/
theorem Holds.of_all {P : A → Prop} {Q : β → Prop} {known : Moment R S Op α → Prop}
    {p : Prog R β} (hall : p.All P Q) (hrely : ∀ {x y}, known x → c.rely t x y → known y)
    (hact : ∀ {x a r shared}, known x → c.inv x → P a → m.performs t x.shared a r shared →
      c.guar x (.act t a r) (x.after shared (.act t a r)) ∧ known (x.after shared (.act t a r)))
    (hknown : known x) : Holds m c t p (fun b y => Q b ∧ known y) x := by
  induction p generalizing x with
  | done b => exact ⟨hall, hknown⟩
  | step a next ih =>
    intro y r shared hxy hinv hperforms
    obtain ⟨hguar, hnext⟩ := hact (hrely hknown hxy) hinv hall.1 hperforms
    exact ⟨hguar, ih r (hall.2 r) hnext⟩

theorem Returns.rely (h : Returns m c t op result x) (hrely : c.rely t x y) :
    Returns m c t op result y := fun z shared hrely' =>
  h z shared (c.trans hrely hrely')

end

/-! ## Runs under a contract -/

section

variable {m : Machine R S Op α} {c : Contract R S Op α}

/-- What holds of a state that a run reaches: the invariant, and that each call will keep its
guarantee. -/
structure Kept (m : Machine R S Op α) (c : Contract R S Op α) (s : State R S Op α) : Prop where
  inv : c.inv s.now
  calls : ∀ {t : Nat} {op : Op} {p : Prog R α}, s.calls[t]? = some (op, some p) →
    Holds m c t p (Returns m c t op) s.now

variable {e : Event R Op α}

/-- An event that guarantees what it should leaves the other calls as they were. -/
theorem Kept.others {s : State R S Op α} (h : Kept m c s) {t : Nat} {y : Moment R S Op α}
    (hguar : c.guar s.now e y) (hne : e.thread ≠ t) (hcall : s.calls[t]? = some (op, some p)) :
    Holds m c t p (Returns m c t op) y :=
  (h.calls hcall).rely (c.others h.inv hguar hne) fun _ hreturns =>
    hreturns.rely (c.others h.inv hguar hne)

/-- A call that acts or returns is replaced by what is left of it; the others stay. -/
theorem Kept.set {s : State R S Op α} (h : Kept m c s) {y : Moment R S Op α}
    (hguar : c.guar s.now e y) {left : Option (Prog R α)}
    (hleft : ∀ p, left = some p → Holds m c e.thread p (Returns m c e.thread op) y) :
    Kept m c ⟨y, s.calls.set e.thread (op, left)⟩ where
  inv := c.keeps h.inv hguar
  calls {u op' p} hcall := by
    simp only [List.getElem?_set] at hcall
    split at hcall
    · rename_i heq
      split at hcall
      · simp only [Option.some.injEq, Prod.mk.injEq] at hcall
        obtain ⟨rfl, hp⟩ := hcall
        exact heq ▸ hleft p hp
      · simp at hcall
    · rename_i hne
      exact h.others hguar hne hcall

variable {s' : State R S Op α}

/-- A step keeps the contract, and guarantees what its event should. -/
theorem Step.kept {s : State R S Op α} (hon : Honoured m c) (h : Step m s e s')
    (hkept : Kept m c s) :
    c.guar s.now e s'.now ∧ Kept m c s' := by
  cases h with
  | @call op shared hbegins =>
    obtain ⟨hguar, hholds⟩ := hon s.calls.length s.now op shared hkept.inv hbegins
    refine ⟨hguar, c.keeps hkept.inv hguar, fun {u op' p} hcall => ?_⟩
    rcases Nat.lt_trichotomy u s.calls.length with hlt | rfl | hgt
    · rw [List.getElem?_append_left hlt] at hcall
      exact hkept.others hguar (Nat.ne_of_gt hlt) hcall
    · simp only [List.getElem?_concat_length] at hcall
      obtain ⟨rfl, rfl⟩ := hcall
      exact hholds
    · rw [List.getElem?_eq_none (by simp; omega)] at hcall
      cases hcall
  | @act t op a next r shared hcall hperforms =>
    obtain ⟨hguar, hholds⟩ := hkept.calls hcall s.now r shared (c.refl ..) hkept.inv hperforms
    refine ⟨hguar, hkept.set hguar fun p hp => ?_⟩
    obtain rfl := Option.some.inj hp
    exact hholds
  | @ret t op result shared hcall hdelivers =>
    have hguar := hkept.calls hcall s.now shared (c.refl ..) hkept.inv hdelivers
    exact ⟨hguar, hkept.set hguar fun p hp => by cases hp⟩

theorem Step.events_eq {s : State R S Op α} (h : Step m s e s') :
    s'.now.events = s.now.events ++ [e] := by
  cases h <;> rfl

variable {shared : S} {events : List (Event R Op α)} {s : State R S Op α}

/-- The events of a moment are those of the run to it. -/
theorem events_eq (h : Run (Step m) (State.initial shared) events s) : s.now.events = events := by
  have hall : ∀ {first last : State R S Op α} {events}, Run (Step m) first events last →
      last.now.events = first.now.events ++ events := by
    intro first last events h
    induction h with
    | nil => simp
    | cons hstep _ ih => rw [ih, hstep.events_eq, List.append_assoc, List.singleton_append]
  exact hall h

/-- Every state that a run reaches keeps the contract. -/
theorem Honoured.reached (hon : Honoured m c) (hinv : c.inv ⟨shared, []⟩)
    (h : Run (Step m) (State.initial shared) events s) : Kept m c s :=
  h.invariant (fun hkept hstep => (hstep.kept hon hkept).2)
    ⟨hinv, fun {t op p} hcall => by simp [State.initial] at hcall⟩

end

/-! ## One call after another -/

/-- A program run alone, its actions performed by a function. -/
def Prog.alone (perform? : S → (a : A) → Option (R a × S)) : Prog R α → S → Option (α × S)
  | .done b, s => some (b, s)
  | .step a next, s => (perform? s a).bind fun p => (next p.1).alone perform? p.2

/-- Functions that choose one of the steps that a machine may take. -/
structure Driver (m : Machine R S Op α) where
  begin? : (s : S) → (op : Op) → Option { s' : S // m.begins s op s' }
  perform? : (t : Nat) → (s : S) → (a : A) → Option { p : R a × S // m.performs t s a p.1 p.2 }
  deliver? : (s : S) → (op : Op) → (result : α) → Option { s' : S // m.delivers s op result s' }

namespace Driver

variable {m : Machine R S Op α} (d : Driver m)

/-- A call that no other interrupts. -/
def call (t : Nat) (s : S) (op : Op) : Option S := do
  let s ← d.begin? s op
  let p ← (m.program op).alone (fun s a => (d.perform? t s a).map Subtype.val) s.1
  (d.deliver? p.2 op p.1).map Subtype.val

/-- Calls one after another, the first of them with number `t`. -/
def calls (t : Nat) (s : S) : List Op → Option S
  | [] => some s
  | op :: ops => (d.call t s op).bind fun s => calls (t + 1) s ops

variable {d} {x : State R S Op α} {shared : S}

/-- A program run alone is a run of the machine. -/
theorem alone_reaches {t : Nat} (hcall : x.calls[t]? = some (op, some p))
    (h : p.alone (fun s a => (d.perform? t s a).map Subtype.val) x.now.shared =
      some (result, shared)) :
    ∃ events y, Run (Step m) x events y ∧ y.now.shared = shared ∧
      y.calls[t]? = some (op, some (.done result)) ∧ y.calls.length = x.calls.length := by
  induction p generalizing x with
  | done b =>
    simp only [Prog.alone, Option.some.injEq, Prod.mk.injEq] at h
    obtain ⟨rfl, hshared⟩ := h
    exact ⟨[], x, .nil x, hshared, hcall, rfl⟩
  | step a next ih =>
    obtain ⟨_, hperform, h⟩ := Option.bind_eq_some_iff.mp h
    obtain ⟨⟨⟨r, s⟩, hp⟩, -, rfl⟩ := Option.map_eq_some_iff.mp hperform
    have hlt : t < x.calls.length := (List.getElem?_eq_some_iff.mp hcall).1
    obtain ⟨events, y, hrun, hshared, hdone, hlength⟩ := ih r
      (x := ⟨x.now.after s (.act t a r), x.calls.set t (op, some (next r))⟩) (by simp [hlt]) h
    exact ⟨_ :: events, y, .cons (.act hcall hp) hrun, hshared, hdone, by simpa using hlength⟩

theorem call_reaches (h : d.call x.calls.length x.now.shared op = some shared) :
    ∃ events y, Run (Step m) x events y ∧ y.now.shared = shared ∧
      y.calls.length = x.calls.length + 1 := by
  obtain ⟨begun, -, h⟩ := Option.bind_eq_some_iff.mp h
  obtain ⟨⟨result, s⟩, halone, h⟩ := Option.bind_eq_some_iff.mp h
  obtain ⟨⟨s', hdelivers⟩, -, rfl⟩ := Option.map_eq_some_iff.mp h
  obtain ⟨events, y, hrun, rfl, hdone, hlength⟩ := alone_reaches (d := d)
    (x := ⟨x.now.after begun.1 (.call x.calls.length op), _⟩) List.getElem?_concat_length halone
  exact ⟨_ :: (events ++ [_]), _, .cons (.call begun.2) (hrun.append (.single
    (.ret hdone hdelivers))), rfl, by simpa using hlength⟩

/-- Calls one after another are a run of the machine. -/
theorem calls_reach {ops : List Op} (h : d.calls x.calls.length x.now.shared ops = some shared) :
    ∃ events y, Run (Step m) x events y ∧ y.now.shared = shared := by
  induction ops generalizing x with
  | nil => exact ⟨[], x, .nil x, Option.some.inj h⟩
  | cons op ops ih =>
    obtain ⟨s, hcall, h⟩ := Option.bind_eq_some_iff.mp h
    obtain ⟨events, y, hrun, rfl, hlength⟩ := call_reaches hcall
    rw [← hlength] at h
    obtain ⟨events', z, hrun', hshared⟩ := ih h
    exact ⟨events ++ events', z, hrun.append hrun', hshared⟩

end Driver

end NexusOs.Threads
