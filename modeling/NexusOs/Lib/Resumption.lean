import Mathlib

/-!
# Programs that call verbs which may unwind

A `Prog` keeps a private state and calls verbs of an outside world. A verb answers, and
the program goes on from the answer, or it unwinds, and the program ends there with the
state it had at the call. `Exec` runs a program against a world: a labelled transition
system whose labels are the calls with their answers. `Prog.All` is the partial-correctness
triple over every such run; `all_ret`, `all_call` and `all_bind` are its rules.

Programs are written in the monad `Op`, a state monad over `Prog`.
-/

namespace NexusOs.Resumption

/-- A program over verbs `V` with answers `A`, keeping a state `S` and returning `α`. Each
call carries the state it is made in, because a verb that unwinds ends the program there. -/
inductive Prog (V : Type) (A : V → Type) (S α : Type) where
  | ret (state : S) (value : α)
  | call (state : S) (verb : V) (next : A verb → Prog V A S α)

/-- One call of a verb: its answer, or `none` if it unwound. -/
structure Event (V : Type) (A : V → Type) where
  verb : V
  answer : Option (A verb)

/-- How a run of a program ends. -/
inductive Outcome (S α : Type) where
  | returned (state : S) (value : α)
  | unwound (state : S)

variable {V : Type} {A : V → Type} {S W α β γ : Type}

/-- The state a run ends in. -/
def Outcome.state : Outcome S α → S
  | .returned state _ => state
  | .unwound state => state

/-- The value a run returns, if it returns. -/
def Outcome.value : Outcome S α → Option α
  | .returned _ value => some value
  | .unwound _ => none

@[simp] theorem Outcome.state_returned (s : S) (a : α) : (returned s a).state = s := rfl
@[simp] theorem Outcome.state_unwound (s : S) : (unwound s : Outcome S α).state = s := rfl
@[simp] theorem Outcome.value_returned (s : S) (a : α) : (returned s a).value = some a := rfl
@[simp] theorem Outcome.value_unwound (s : S) : (unwound s : Outcome S α).value = none := rfl

/-- `Exec step p w trace outcome w'` says that `p`, started in the world `w`, makes the
calls `trace`, ends with `outcome` and leaves the world `w'`. -/
inductive Exec (step : W → Event V A → W → Prop) :
    Prog V A S α → W → List (Event V A) → Outcome S α → W → Prop where
  | ret (state : S) (value : α) (world : W) :
      Exec step (.ret state value) world [] (.returned state value) world
  | unwind {state : S} {verb : V} {next : A verb → Prog V A S α} {world world' : W} :
      step world ⟨verb, none⟩ world' →
      Exec step (.call state verb next) world [⟨verb, none⟩] (.unwound state) world'
  | answer {state : S} {verb : V} {next : A verb → Prog V A S α} {world middle world' : W}
      {reply : A verb} {trace : List (Event V A)} {outcome : Outcome S α} :
      step world ⟨verb, some reply⟩ middle →
      Exec step (next reply) middle trace outcome world' →
      Exec step (.call state verb next) world (⟨verb, some reply⟩ :: trace) outcome world'

variable {p : Prog V A S α}

/-- A world that allows every call with every answer allows every run. -/
theorem Exec.of_total {W' : Type} {step : W → Event V A → W → Prop}
    {step' : W' → Event V A → W' → Prop} (htotal : ∀ w e, ∃ t, step' w e t) {w t : W}
    {trace : List (Event V A)} {outcome : Outcome S α} (h : Exec step p w trace outcome t)
    (w' : W') :
    ∃ t', Exec step' p w' trace outcome t' := by
  induction h generalizing w' with
  | ret => exact ⟨w', .ret _ _ _⟩
  | unwind =>
    obtain ⟨t', h'⟩ := htotal w' _
    exact ⟨t', .unwind h'⟩
  | answer _ _ ih =>
    obtain ⟨m', h'⟩ := htotal w' _
    obtain ⟨t', hexec⟩ := ih m'
    exact ⟨t', .answer h' hexec⟩

namespace Prog

/-- Sequencing: the second program starts in the state the first returned with. -/
def bind : Prog V A S α → (S → α → Prog V A S β) → Prog V A S β
  | .ret state value, f => f state value
  | .call state verb next, f => .call state verb fun reply => (next reply).bind f

@[simp] theorem bind_ret (s : S) (a : α) (f : S → α → Prog V A S β) :
    (ret s a : Prog V A S α).bind f = f s a := rfl

@[simp] theorem bind_call (s : S) (v : V) (k : A v → Prog V A S α) (f : S → α → Prog V A S β) :
    (call s v k).bind f = call s v fun r => (k r).bind f := rfl

theorem bind_ret_right (p : Prog V A S α) : (p.bind fun s a => ret s a) = p := by
  induction p with
  | ret => rfl
  | call s v k ih => exact congrArg _ (funext ih)

theorem bind_assoc (p : Prog V A S α) (f : S → α → Prog V A S β) (g : S → β → Prog V A S γ) :
    (p.bind f).bind g = p.bind fun s a => (f s a).bind g := by
  induction p with
  | ret => rfl
  | call s v k ih => exact congrArg _ (funext ih)

/-- `p.All step w post` says that every run of `p` from the world `w` satisfies `post`. -/
def All (step : W → Event V A → W → Prop) (p : Prog V A S α) (w : W)
    (post : List (Event V A) → Outcome S α → W → Prop) : Prop :=
  ∀ trace outcome w', Exec step p w trace outcome w' → post trace outcome w'

variable {step : W → Event V A → W → Prop} {w : W} {s : S}
  {post : List (Event V A) → Outcome S α → W → Prop}

/-- A program that returns makes no call. -/
@[simp] theorem all_ret {a : α} : (ret s a).All step w post ↔ post [] (.returned s a) w := by
  constructor
  · intro h
    exact h _ _ _ (.ret s a w)
  · intro h trace outcome w' hexec
    cases hexec
    exact h

/-- A call ends the program by unwinding or continues it with its answer. -/
theorem all_call {v : V} {k : A v → Prog V A S α} :
    (call s v k).All step w post ↔
      (∀ w', step w ⟨v, none⟩ w' → post [⟨v, none⟩] (.unwound s) w') ∧
      ∀ r w', step w ⟨v, some r⟩ w' →
        (k r).All step w' fun trace outcome w'' => post (⟨v, some r⟩ :: trace) outcome w'' := by
  constructor
  · intro h
    exact ⟨fun w' hstep => h _ _ _ (.unwind hstep),
      fun r w' hstep trace outcome w'' hexec => h _ _ _ (.answer hstep hexec)⟩
  · rintro ⟨hunwind, hanswer⟩ trace outcome w' hexec
    cases hexec with
    | unwind hstep => exact hunwind _ hstep
    | answer hstep hrest => exact hanswer _ _ hstep _ _ _ hrest

/-- The runs of a sequence are the runs of the first program, each that returns followed
by a run of the second. -/
theorem all_bind {f : S → α → Prog V A S β} {post : List (Event V A) → Outcome S β → W → Prop}
    (h : p.All step w fun trace outcome w' =>
      match outcome with
      | .returned s a =>
        (f s a).All step w' fun trace' outcome' w'' => post (trace ++ trace') outcome' w''
      | .unwound s => post trace (.unwound s) w') : (p.bind f).All step w post := by
  induction p generalizing w post with
  | ret s a => simpa using h
  | call s v k ih =>
    rw [all_call] at h
    rw [bind_call, all_call]
    refine ⟨fun w' hstep => h.1 w' hstep, fun r w' hstep => ih r ?_⟩
    intro trace outcome w'' hexec
    have hpost := h.2 r w' hstep trace outcome w'' hexec
    cases outcome <;> exact hpost

end Prog

/-- The monad programs are written in: a program for each state it may start in. -/
def Op (V : Type) (A : V → Type) (S α : Type) : Type := S → Prog V A S α

namespace Op

instance : Monad (Op V A S) where
  pure a := fun s => .ret s a
  bind x f := fun s => (x s).bind fun s' a => f a s'

instance : MonadStateOf S (Op V A S) where
  get := fun s => .ret s s
  set s := fun _ => .ret s ()
  modifyGet f := fun s => .ret (f s).2 (f s).1

/-- Call a verb and continue with its answer. -/
def call (v : V) : Op V A S (A v) := fun s => .call s v fun r => .ret s r

@[simp] theorem bind_run (x : Op V A S α) (f : α → Op V A S β) (s : S) :
    (x >>= f) s = (x s).bind fun s' a => f a s' := rfl

@[simp] theorem map_run (f : α → β) (x : Op V A S α) (s : S) :
    (f <$> x) s = (x s).bind fun s' a => .ret s' (f a) := rfl

@[simp] theorem get_run (s : S) : (get : Op V A S S) s = .ret s s := rfl

theorem get_bind_run (k : S → Op V A S α) (s : S) : (get >>= k) s = k s s := rfl

theorem modify_bind_run (f : S → S) (k : Unit → Op V A S α) (s : S) :
    ((modify f : Op V A S Unit) >>= k) s = k () (f s) := rfl

instance : LawfulMonad (Op V A S) :=
  LawfulMonad.mk' _ (fun x => funext fun s => Prog.bind_ret_right (x s)) (fun _ _ => rfl)
    fun x _ _ => funext fun s => Prog.bind_assoc (x s) _ _

end Op

end NexusOs.Resumption
