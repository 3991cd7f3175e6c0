import Mathlib.Data.Nat.Basic

/-!
# Traces

A system is a relation between states that carries labels: what an observer sees of a step.
`Run step s tr s'` says that from `s` the labels `tr`, in this order, lead to `s'`. A system
refines another one under an abstraction function if every step of the first is a step of the
second with the same label (`Run.refines`); then every trace of the first is one of the second.
-/

namespace Lib.Trace

variable {σ τ α : Type} {step : σ → α → σ → Prop} {s s' s'' : σ} {tr tr' : List α}

/-- The labels `tr` lead from `s` to `s'`. -/
inductive Run (step : σ → α → σ → Prop) (s : σ) : List α → σ → Prop
  | nil : Run step s [] s
  | snoc {tr : List α} {s₁ s₂ : σ} {a : α} (h : Run step s tr s₁) (hs : step s₁ a s₂) :
      Run step s (tr ++ [a]) s₂

theorem Run.append (h : Run step s tr s') (h' : Run step s' tr' s'') :
    Run step s (tr ++ tr') s'' := by
  induction h' with
  | nil => rwa [List.append_nil]
  | snoc _ hs ih =>
    rw [← List.append_assoc]
    exact ih.snoc hs

/-- What a step keeps, if its label is one of those that satisfy `P`, a run with such labels
keeps. -/
theorem Run.invariant {I : σ → Prop} {P : α → Prop} (h : Run step s tr s') (hinit : I s)
    (hP : ∀ a ∈ tr, P a) (hstep : ∀ s a s', I s → P a → step s a s' → I s') : I s' := by
  induction h with
  | nil => exact hinit
  | @snoc tr s₁ s₂ a _ hs ih =>
    refine hstep s₁ a s₂ (ih fun b hb => hP b ?_) (hP a ?_) hs
    · exact List.mem_append_left _ hb
    · exact List.mem_append_right _ (List.mem_singleton.mpr rfl)

/-- Forward simulation along an abstraction function, from states that satisfy an invariant. -/
theorem Run.refines {step' : τ → α → τ → Prop} {f : σ → τ} {I : σ → Prop} (h : Run step s tr s')
    (hinit : I s) (hkeep : ∀ s a s', I s → step s a s' → I s')
    (hsim : ∀ s a s', I s → step s a s' → step' (f s) a (f s')) :
    I s' ∧ Run step' (f s) tr (f s') := by
  induction h with
  | nil => exact ⟨hinit, .nil⟩
  | snoc _ hs ih =>
    obtain ⟨hI, hrun⟩ := ih
    exact ⟨hkeep _ _ _ hI hs, hrun.snoc (hsim _ _ _ hI hs)⟩

end Lib.Trace
