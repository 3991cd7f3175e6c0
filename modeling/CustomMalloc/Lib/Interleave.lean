import Mathlib.Logic.Basic

/-!
# Interleavings

A concurrent program is a step function: `step s a` is the state after the atomic
step `a`, or `none` where `a` cannot happen. A step names the thread that takes it,
so a schedule is a list of steps and an interleaving is a schedule. `Reaches` are the
states some schedule leads to, all of whose steps satisfy `P` in the state they are
taken in; `replay` runs a schedule that is written out.

A call is a step function of its own: it takes the shared state and the call's program
counter and says where the call goes on. `alone` runs one call without interference.
-/

namespace Lib.Interleave

variable {σ α : Type} {step : σ → α → Option σ} {P : σ → α → Prop} {s₀ s : σ}

/-- `s` is reached from `s₀` by steps that satisfy `P`. -/
inductive Reaches (step : σ → α → Option σ) (P : σ → α → Prop) (s₀ : σ) : σ → Prop
  | init : Reaches step P s₀ s₀
  | next {s s' : σ} (a : α) (h : Reaches step P s₀ s) (hP : P s a) (he : step s a = some s') :
      Reaches step P s₀ s'

/-- What holds at the start and survives every step holds in every state reached. -/
theorem Reaches.invariant {I : σ → Prop} (h : Reaches step P s₀ s) (hinit : I s₀)
    (hstep : ∀ s a s', I s → P s a → step s a = some s' → I s') : I s := by
  induction h with
  | init => exact hinit
  | next a _ hP he ih => exact hstep _ a _ ih hP he

/-- Run a schedule while its steps pass `ok`. -/
def replay (step : σ → α → Option σ) (ok : σ → α → Bool) : σ → List α → Option σ
  | s, [] => some s
  | s, a :: as => if ok s a then (step s a).bind fun s' => replay step ok s' as else none

theorem reaches_of_replay {ok : σ → α → Bool} (hok : ∀ s a, ok s a = true → P s a) {as : List α}
    {s₁ : σ} (h : Reaches step P s₀ s) (he : replay step ok s as = some s₁) :
    Reaches step P s₀ s₁ := by
  induction as generalizing s with
  | nil => exact Option.some.inj he ▸ h
  | cons a as ih =>
    unfold replay at he
    split at he
    next hp =>
      obtain ⟨s', hs', hrest⟩ := Option.bind_eq_some_iff.mp he
      exact ih (h.next a (hok s a hp) hs') hrest
    next => cases he

/-- Where a schedule leads that is written out. -/
def replayed (step : σ → α → Option σ) (ok : σ → α → Bool) (s : σ) (as : List α) : σ :=
  (replay step ok s as).getD s

theorem reaches_replayed {ok : σ → α → Bool} (hok : ∀ s a, ok s a = true → P s a) (s : σ)
    (as : List α) : Reaches step P s (replayed step ok s as) := by
  unfold replayed
  cases he : replay step ok s as with
  | none => exact .init
  | some s₁ => exact reaches_of_replay hok .init he

/-- Where a call goes on: at another program counter, or back to its caller. -/
inductive Next (κ β : Type) where
  | goto (pc : κ)
  | done (result : β)
  deriving DecidableEq, Repr

/-- A call inside another one: `wrap` places its program counters, `k` is what follows. -/
def Next.within {κ κ' β γ : Type} (x : Next κ β) (wrap : κ → κ') (k : β → Next κ' γ) : Next κ' γ :=
  match x with
  | .goto pc => .goto (wrap pc)
  | .done b => k b

/-- Run a call on its own, for at most `fuel` steps. -/
def alone {κ β : Type} (call : σ → κ → σ × Next κ β) : Nat → σ → κ → Option (σ × β)
  | 0, _, _ => none
  | fuel + 1, s, pc =>
    match call s pc with
    | (s', .goto pc') => alone call fuel s' pc'
    | (s', .done b) => some (s', b)

section Alone

variable {κ β : Type} {call : σ → κ → σ × Next κ β} {s' : σ} {pc pc' : κ} {fuel : Nat}

theorem alone_goto (h : call s pc = (s', .goto pc')) :
    alone call (fuel + 1) s pc = alone call fuel s' pc' := by
  rw [alone, h]

theorem alone_done {b : β} (h : call s pc = (s', .done b)) :
    alone call (fuel + 1) s pc = some (s', b) := by
  rw [alone, h]

end Alone

end Lib.Interleave
