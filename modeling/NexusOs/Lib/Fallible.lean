import Mathlib

/-!
# Steps that may fail

When a check, a sequence of two steps or a match on a partial result comes to a value; and the
same for steps that also pass a state on, `StateT σ (Except ε)`: how they run, and what they did
if they did not fail.
-/

namespace NexusOs.Fallible

section

variable {ε α β : Type}

/-- A check that passed, and what came after it. -/
theorem ite_error_eq_ok {p : Prop} [Decidable p] {e : ε} {x : Except ε α} {a : α} :
    (if p then .error e else x) = Except.ok a ↔ ¬p ∧ x = .ok a := by
  split <;> simp [*]

/-- A step that succeeded, and the one after it. -/
theorem bind_eq_ok {x : Except ε α} {f : α → Except ε β} {b : β} :
    (x >>= f) = .ok b ↔ ∃ a, x = .ok a ∧ f a = .ok b := by
  cases x <;> simp [bind, Except.bind]

end

section

variable {σ ε α β : Type} {m : StateT σ (Except ε) α} {f : α → StateT σ (Except ε) β}
  {s s' s'' : σ} {a : α}

/-- A step that does not fail, and what comes after it. -/
theorem run_bind_of_ok (h : m s = .ok (a, s')) : (m >>= f) s = f a s' := by
  show (m s >>= fun p => f p.1 p.2) = f a s'
  rw [h]
  rfl

theorem run_bind_eq_ok {b : β} :
    (m >>= f) s = .ok (b, s'') ↔ ∃ a s', m s = .ok (a, s') ∧ f a s' = .ok (b, s'') := by
  show (m s >>= fun p => f p.1 p.2) = .ok (b, s'') ↔ _
  rw [bind_eq_ok, Prod.exists]

theorem run_get_bind {f : σ → StateT σ (Except ε) β} : (get >>= f) s = f s s := rfl

theorem run_set_bind {f : PUnit → StateT σ (Except ε) β} : (set s' >>= f) s = f ⟨⟩ s' := rfl

theorem run_modify_bind {g : σ → σ} {f : PUnit → StateT σ (Except ε) β} :
    (modify g >>= f) s = f ⟨⟩ (g s) := rfl

theorem run_pure : (pure a : StateT σ (Except ε) α) s = .ok (a, s) := rfl

theorem run_set : (set s' : StateT σ (Except ε) PUnit) s = .ok (⟨⟩, s') := rfl

/-- A step that reads no state, and what comes after it. -/
theorem run_lift_bind_of_ok {x : Except ε α} (h : x = .ok a) :
    ((liftM x : StateT σ (Except ε) α) >>= f) s = f a s := by
  subst h
  rfl

theorem ok_of_run_lift_bind {x : Except ε α} {b : β}
    (h : ((liftM x : StateT σ (Except ε) α) >>= f) s = .ok (b, s'')) :
    ∃ a, x = .ok a ∧ f a s = .ok (b, s'') := by
  cases x with
  | error e => cases h
  | ok a => exact ⟨a, rfl, h⟩

end

end NexusOs.Fallible
