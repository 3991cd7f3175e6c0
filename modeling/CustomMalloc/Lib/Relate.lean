import Mathlib.Data.Nat.Basic

/-!
# Two computations side by side

`Both R x y`: the computations `x` and `y` stop for the same reason, or both return
and `R` relates their results. `Into R x y`: whatever `x` returns, `y` returns something
that `R` relates to it. The rules for `bind` run the computations in step.
-/

namespace Lib.Relate

variable {ε α β γ δ : Type} {R : α → β → Prop} {x : Except ε α} {y : Except ε β}

/-- Both return, with related results, or both stop for the same reason. -/
def Both (R : α → β → Prop) : Except ε α → Except ε β → Prop
  | .ok a, .ok b => R a b
  | .error e, .error e' => e = e'
  | _, _ => False

theorem both_bind {S : γ → δ → Prop} {f : α → Except ε γ} {g : β → Except ε δ} (h : Both R x y)
    (hf : ∀ a b, R a b → Both S (f a) (g b)) : Both S (x >>= f) (y >>= g) := by
  cases x with
  | error e =>
    cases y with
    | error e' => exact h
    | ok b => exact h.elim
  | ok a =>
    cases y with
    | error e' => exact h.elim
    | ok b => exact hf a b h

/-- Whatever the first computation returns, the second one returns something related. -/
def Into (R : α → β → Prop) (x : Except ε α) (y : Except ε β) : Prop :=
  ∀ a, x = .ok a → ∃ b, y = .ok b ∧ R a b

theorem into_ok {a : α} {b : β} (h : R a b) : Into R (.ok a : Except ε α) (.ok b : Except ε β) := by
  intro a' ha
  cases ha
  exact ⟨b, rfl, h⟩

theorem into_error {e : ε} : Into R (.error e : Except ε α) y := fun _ ha => absurd ha (by simp)

theorem into_bind {S : γ → δ → Prop} {f : α → Except ε γ} {g : β → Except ε δ} (h : Into R x y)
    (hf : ∀ a b, R a b → Into S (f a) (g b)) : Into S (x >>= f) (y >>= g) := by
  cases x with
  | error e => exact into_error
  | ok a =>
    obtain ⟨b, rfl, hab⟩ := h a rfl
    exact hf a b hab

/-- Computations in step are, in particular, that. -/
theorem Both.returns {a : α} (h : Both R x y) (hx : x = .ok a) : ∃ b, y = .ok b ∧ R a b := by
  subst hx
  cases y with
  | error e => exact h.elim
  | ok b => exact ⟨b, rfl, h⟩

end Lib.Relate
