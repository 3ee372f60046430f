import Mathlib

/-!
# Runs of labelled transition systems

`Run step s labels t` says that the labelled steps `labels` lead from `s` to `t`. The
file gives what the developments over it need: runs compose and split, a run passes through a
step for each of its labels (`Run.of_mem`), an invariant of every step holds along every run
(`Run.invariant`), and so does a preorder that every step respects (`Run.relates`).
-/

namespace NexusOs.Transition

variable {σ ℓ : Type}

/-- `Run step s labels t` says that `labels`, taken in order, lead from `s` to `t`. -/
inductive Run (step : σ → ℓ → σ → Prop) : σ → List ℓ → σ → Prop where
  | nil (state : σ) : Run step state [] state
  | cons {first middle last : σ} {label : ℓ} {labels : List ℓ} :
      step first label middle → Run step middle labels last →
      Run step first (label :: labels) last

namespace Run

variable {step : σ → ℓ → σ → Prop} {first middle last : σ} {label : ℓ}
  {labels before after : List ℓ}

/-- One step is a run of one label. -/
theorem single (h : step first label last) : Run step first [label] last := .cons h (.nil _)

/-- A run without labels ends where it starts. -/
@[simp] theorem nil_iff : Run step first [] last ↔ last = first := by
  constructor
  · intro h
    cases h
    rfl
  · rintro rfl
    exact .nil _

/-- A run with a first label is a step and the run of the others. -/
@[simp] theorem cons_iff :
    Run step first (label :: labels) last ↔
      ∃ middle, step first label middle ∧ Run step middle labels last := by
  constructor
  · intro h
    cases h with
    | cons hstep hrest => exact ⟨_, hstep, hrest⟩
  · rintro ⟨_, hstep, hrest⟩
    exact .cons hstep hrest

/-- Runs compose. -/
theorem append (h : Run step first before middle) (h' : Run step middle after last) :
    Run step first (before ++ after) last := by
  induction h with
  | nil => exact h'
  | cons hstep _ ih => exact .cons hstep (ih h')

/-- A run splits at every point of its labels. -/
theorem append_iff :
    Run step first (before ++ after) last ↔
      ∃ middle, Run step first before middle ∧ Run step middle after last := by
  constructor
  · intro h
    induction before generalizing first with
    | nil => exact ⟨first, .nil _, h⟩
    | cons label before ih =>
      obtain ⟨next, hstep, hrest⟩ := cons_iff.mp h
      obtain ⟨middle, hbefore, hafter⟩ := ih hrest
      exact ⟨middle, .cons hstep hbefore, hafter⟩
  · rintro ⟨_, hbefore, hafter⟩
    exact hbefore.append hafter

/-- A run that takes a label passes through a step with it. -/
theorem of_mem (h : Run step first labels last) (hmem : label ∈ labels) :
    ∃ before after source target, labels = before ++ label :: after ∧
      Run step first before source ∧ step source label target ∧
      Run step target after last := by
  obtain ⟨before, after, rfl⟩ := List.append_of_mem hmem
  obtain ⟨source, hbefore, hrest⟩ := append_iff.mp h
  obtain ⟨target, hstep, hafter⟩ := cons_iff.mp hrest
  exact ⟨before, after, source, target, rfl, hbefore, hstep, hafter⟩

/-- What every step preserves holds at the end of every run that starts with it. -/
theorem invariant {inv : σ → Prop} (h : Run step first labels last)
    (hstep : ∀ {s a t}, inv s → step s a t → inv t) (hfirst : inv first) : inv last := by
  induction h with
  | nil => exact hfirst
  | cons h _ ih => exact ih (hstep hfirst h)

/-- A relation that is reflexive and transitive and holds across every step holds across
every run. -/
theorem relates (rel : σ → σ → Prop) (h : Run step first labels last)
    (hrefl : ∀ s, rel s s) (htrans : ∀ {s t u}, rel s t → rel t u → rel s u)
    (hstep : ∀ {s a t}, step s a t → rel s t) : rel first last := by
  induction h with
  | nil => exact hrefl _
  | cons h _ ih => exact htrans (hstep h) ih

end Run

end NexusOs.Transition
