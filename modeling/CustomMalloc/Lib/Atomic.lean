import CustomMalloc.Lib.Trace
import Mathlib.Logic.Function.Basic

/-!
# Calls that take effect at once

`spec a op r a'` says that the operation `op` may answer `r` and turn the object `a` into `a'`. The
atomic object lets many callers in at a time: a caller starts a call, at some later step the
operation takes effect as a whole, and later still the call returns the answer it got then. An
implementation whose runs are runs of the atomic object, with the same calls and the same answers,
is linearizable: what its callers see is explained by one sequential run of the operations
(`run_sequential`), in which every operation comes between its call and its return.
-/

namespace Lib.Atomic

open Lib.Trace

variable {ι α ω ρ : Type}

/-- What is seen from outside. -/
inductive Event (ι ω ρ : Type) where
  | call (i : ι) (op : ω)
  | ret (i : ι) (r : ρ)
  /-- a step that is not seen -/
  | tau
  deriving DecidableEq, Repr

/-- Where a caller stands. -/
inductive Status (ω ρ : Type) where
  | idle
  | pending (op : ω)
  | done (r : ρ)
  deriving DecidableEq, Repr

/-- The object and its callers. -/
structure Object (ι α ω ρ : Type) where
  value : α
  status : ι → Status ω ρ

/-- Nobody calls. -/
def Object.fresh (a : α) : Object ι α ω ρ := ⟨a, fun _ => .idle⟩

variable [DecidableEq ι] {spec : α → ω → ρ → α → Prop}

/-- A step of the atomic object. -/
inductive Step (spec : α → ω → ρ → α → Prop) :
    Object ι α ω ρ → Event ι ω ρ → Object ι α ω ρ → Prop
  | call {x : Object ι α ω ρ} {i : ι} {op : ω} (h : x.status i = .idle) :
      Step spec x (.call i op) { x with status := Function.update x.status i (.pending op) }
  | effect {x : Object ι α ω ρ} {i : ι} {op : ω} {r : ρ} {a : α} (h : x.status i = .pending op)
      (hs : spec x.value op r a) :
      Step spec x .tau ⟨a, Function.update x.status i (.done r)⟩
  | ret {x : Object ι α ω ρ} {i : ι} {r : ρ} (h : x.status i = .done r) :
      Step spec x (.ret i r) { x with status := Function.update x.status i .idle }
  | stay {x : Object ι α ω ρ} : Step spec x .tau x

/-- A sequential run: one operation after the other. -/
def Sequential (spec : α → ω → ρ → α → Prop) (a : α) : ω × ρ → α → Prop :=
  fun e a' => spec a e.1 e.2 a'

/-- Behind every run there is a sequential one that has all the answers. -/
theorem run_sequential {a₀ : α} {tr : List (Event ι ω ρ)} {x : Object ι α ω ρ}
    (h : Run (Step spec) (Object.fresh a₀) tr x) :
    ∃ seq, Run (Sequential spec) a₀ seq x.value ∧
      (∀ i r, x.status i = .done r → ∃ op, (op, r) ∈ seq) ∧
      ∀ i r, Event.ret i r ∈ tr → ∃ op, (op, r) ∈ seq := by
  induction h with
  | nil => exact ⟨[], .nil, fun _ _ h => absurd h (by simp [Object.fresh]), by simp⟩
  | @snoc tr x₁ x₂ e _ hs ih =>
    obtain ⟨seq, hseq, hdone, hret⟩ := ih
    cases hs with
    | @call i op hi =>
      refine ⟨seq, hseq, fun j r hj => ?_, fun j r hj => ?_⟩
      · by_cases hji : j = i
        · subst hji
          simp at hj
        · exact hdone j r (by simpa [hji] using hj)
      · exact hret j r (by simpa using hj)
    | @effect i op r₀ a hi hs =>
      refine ⟨seq ++ [(op, r₀)], hseq.snoc hs, fun j r hj => ?_, fun j r hj => ?_⟩
      · by_cases hji : j = i
        · subst hji
          obtain rfl : r₀ = r := by simpa using hj
          exact ⟨op, by simp⟩
        · obtain ⟨op', hop⟩ := hdone j r (by simpa [hji] using hj)
          exact ⟨op', List.mem_append_left _ hop⟩
      · obtain ⟨op', hop⟩ := hret j r (by simpa using hj)
        exact ⟨op', List.mem_append_left _ hop⟩
    | @ret i r₀ hi =>
      refine ⟨seq, hseq, fun j r hj => ?_, fun j r hj => ?_⟩
      · by_cases hji : j = i
        · subst hji
          simp at hj
        · exact hdone j r (by simpa [hji] using hj)
      · rcases List.mem_append.mp hj with hj | hj
        · exact hret j r hj
        · obtain ⟨rfl, rfl⟩ : j = i ∧ r = r₀ := by simpa using hj
          exact hdone j r hi
    | stay =>
      exact ⟨seq, hseq, hdone, fun j r hj => hret j r (by simpa using hj)⟩

end Lib.Atomic
